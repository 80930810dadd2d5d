import AccessStack.Confirmations.CanonicalLaws

/-!
# What the digest of the arguments identifies

Where no key is `__proto__`, the arguments that are hashed are those without
the keys that spell `confirmationid`. A canonical text has no lone half of a
pair, so its bytes determine it, and a hash without collisions the digest.
-/

set_option autoImplicit false

namespace AccessStack.Confirmations
open AccessStack.Units AccessStack.Delimiters AccessStack.Utf16

section Stripping
variable {N : Type}

def spellsConfirmation (key : Text) : Bool := normalizeSensitiveKey key == confirmationKey

mutual

/-- The value without the keys that spell `confirmationid`, at every depth. -/
def stripped : Value N → Value N
  | .arr items => .arr (strippedItems items)
  | .obj entries => .obj (strippedEntries entries)
  | v => v

def strippedItems : List (Value N) → List (Value N)
  | [] => []
  | v::vs => stripped v :: strippedItems vs

def strippedEntries : List (Text × Value N) → List (Text × Value N)
  | [] => []
  | (key, v)::entries =>
    if spellsConfirmation key then strippedEntries entries else (key, stripped v) :: strippedEntries entries

end

/-- No object inside has a property of the name `__proto__`. -/
def Plain : Value N → Prop := Everywhere fun v => protoKey ∉ v.keys

theorem strippedItems_map (items : List (Value N)) : strippedItems items = items.map stripped := by
  induction items with
  | nil => rfl
  | cons v items ih => rw [strippedItems, ih, List.map_cons]

theorem strippedEntries_map (entries : List (Text × Value N)) :
    strippedEntries entries = (entries.filter fun e => !spellsConfirmation e.1).map fun e =>
    (e.1, stripped e.2) := by
  induction entries with
  | nil => rfl
  | cons e entries ih =>
    obtain ⟨key, v⟩ := e
    rw [strippedEntries, ih]
    cases hspells : spellsConfirmation key <;> simp [hspells]

theorem removeItems_ok {items items' : List (Value N)} (h : removeItems items = .ok items')
    (hstrip : ∀ v ∈ items, ∀ v', removeEphemeralAndRejectSensitive v = .ok v' → v' = stripped v) :
    items' = strippedItems items := by
  induction items generalizing items' with
  | nil => exact (Except.ok.inj h).symm
  | cons v items ih =>
    cases hv : removeEphemeralAndRejectSensitive v with
    | error refusal => simp [removeItems, hv] at h
    | ok v' =>
      cases hrest : removeItems items with
      | error refusal => simp [removeItems, hv, hrest, Except.map] at h
      | ok rest =>
        have hfirst := hstrip v List.mem_cons_self v' hv
        have htail := ih hrest fun v hv => hstrip v (List.mem_cons_of_mem _ hv)
        simp only [removeItems, hv, hrest, Except.map, Except.ok.injEq] at h
        rw [← h, hfirst, htail, strippedItems]

theorem removeEntries_ok {entries entries' : List (Text × Value N)} (h : removeEntries entries = .ok entries')
    (hproto : protoKey ∉ entries.map Prod.fst)
    (hstrip : ∀ e ∈ entries, ∀ v', removeEphemeralAndRejectSensitive e.2 = .ok v' → v' = stripped e.2) :
    entries' = strippedEntries entries := by
  induction entries generalizing entries' with
  | nil => exact (Except.ok.inj h).symm
  | cons e entries ih =>
    obtain ⟨key, v⟩ := e
    obtain ⟨hkey, hproto⟩ := not_or.mp (mt List.mem_cons.mpr hproto)
    have hrec : ∀ {rest}, removeEntries entries = .ok rest → rest = strippedEntries entries := fun hrest =>
      ih hrest hproto fun e he => hstrip e (List.mem_cons_of_mem _ he)
    by_cases hspells : normalizeSensitiveKey key = confirmationKey
    · have hspells' : spellsConfirmation key = true := beq_iff_eq.mpr hspells
      rw [removeEntries, if_pos hspells] at h
      rw [strippedEntries, if_pos hspells']
      exact hrec h
    · have hspells' : ¬ spellsConfirmation key = true := fun h => hspells (beq_iff_eq.mp h)
      rw [removeEntries, if_neg hspells] at h
      by_cases hsensitive : isSensitiveFieldKey (normalizeSensitiveKey key) = true
      · rw [if_pos hsensitive] at h
        cases h
      · rw [if_neg hsensitive] at h
        cases hv : removeEphemeralAndRejectSensitive v with
        | error refusal => simp [hv] at h
        | ok v' =>
          cases hrest : removeEntries entries with
          | error refusal => simp [hv, hrest, Except.map] at h
          | ok rest =>
            have hfirst : v' = stripped v := hstrip (key, v) List.mem_cons_self v' hv
            have hkey' : ¬ key = protoKey := fun h => hkey h.symm
            simp only [hv, hrest, Except.map, if_neg hkey', Except.ok.injEq] at h
            rw [strippedEntries, if_neg hspells', ← h, hfirst, hrec hrest]

/-- What is hashed of accepted arguments is their text without the keys that spell `confirmationid`. -/
theorem remove_ok (v : Value N) : Plain v → ∀ v', removeEphemeralAndRejectSensitive v = .ok v' →
    v' = stripped v := by
  induction v using Value.byChildren with
  | step v ih =>
    intro hplain v' h
    cases v with
    | arr items =>
      cases hitems : removeItems items with
      | error refusal => simp [removeEphemeralAndRejectSensitive, hitems, Except.map] at h
      | ok items' =>
        have hstripped := removeItems_ok hitems fun c hc => ih c hc (hplain.inside hc)
        simp only [removeEphemeralAndRejectSensitive, hitems, Except.map, Except.ok.injEq] at h
        rw [← h, hstripped, stripped]
    | obj entries =>
      cases hentries : removeEntries entries with
      | error refusal => simp [removeEphemeralAndRejectSensitive, hentries, Except.map] at h
      | ok entries' =>
        have hchild : ∀ e ∈ entries, e.2 ∈ (Value.obj entries).children := fun e he => List.mem_map_of_mem he
        have hstripped := removeEntries_ok hentries hplain.here fun e he =>
          ih e.2 (hchild e he) (hplain.inside (hchild e he))
        simp only [removeEphemeralAndRejectSensitive, hentries, Except.map, Except.ok.injEq] at h
        rw [← h, hstripped, stripped]
    | _ => exact (Except.ok.inj h).symm

theorem wellFormed_stripped (v : Value N) : WellFormed v → WellFormed (stripped v) := by
  induction v using Value.byChildren with
  | step v ih =>
    intro h
    cases v with
    | arr items =>
      rw [stripped, strippedItems_map]
      refine .intro _ List.nodup_nil ?_
      intro c hc
      obtain ⟨d, hd, rfl⟩ := List.mem_map.mp hc
      exact ih d hd (h.inside hd)
    | obj entries =>
      rw [stripped, strippedEntries_map]
      have hkeys : (Value.obj entries).keys.Nodup := h.here
      refine .intro _ ?_ ?_
      · show (((entries.filter fun e => !spellsConfirmation e.1).map fun e =>
          (e.1, stripped e.2)).map Prod.fst).Nodup
        rw [List.map_map]
        exact hkeys.sublist (List.filter_sublist.map _)
      · intro c hc
        obtain ⟨e, he, rfl⟩ := List.mem_map.mp hc
        obtain ⟨d, hd, rfl⟩ := List.mem_map.mp he
        have hchild : d.2 ∈ (Value.obj entries).children := List.mem_map_of_mem (List.mem_filter.mp hd).1
        exact ih d.2 hchild (h.inside hchild)
    | _ => exact h

end Stripping

section Bytes
variable {N : Type} (numerals : Numerals N)

theorem ascii_single {u : UInt16} (h : u < 128) : isHigh u = false ∧ isLow u = false := by
  have hlt : u.toNat < 128 := UInt16.lt_iff_toNat_lt.mp h
  simp only [isHigh, isLow, Bool.and_eq_false_iff, decide_eq_false_iff_not, UInt16.le_iff_toNat_le,
    UInt16.reduceToNat]
  omega

theorem paired_ascii {us : Text} (h : ∀ u ∈ us, u < 128) : Paired us := by
  induction us with
  | nil => exact .nil
  | cons u us ih =>
    obtain ⟨hhigh, hlow⟩ := ascii_single (h u List.mem_cons_self)
    exact .single hhigh hlow (ih fun v hv => h v (List.mem_cons_of_mem _ hv))

theorem numeral_ascii {u : UInt16} (h : isNumeral u = true) : u < 128 := by
  have hlt := u.toNat_lt
  simp only [isNumeral, Bool.or_eq_true, Bool.and_eq_true, decide_eq_true_eq, beq_iff_eq,
    UInt16.le_iff_toNat_le, ← UInt16.toNat_inj, UInt16.reduceToNat] at h
  rw [UInt16.lt_iff_toNat_lt]
  show u.toNat < 128
  omega

theorem paired_hex (u : UInt16) : Paired (92 :: 117 :: hexUnits u) := by
  obtain ⟨h1, h2, h3, h4⟩ := hex_bounds u
  apply paired_ascii
  simp only [hexUnits, List.mem_cons, List.not_mem_nil, or_false, forall_eq_or_imp, forall_eq]
  exact ⟨by decide, by decide, hexDigit_small h1, hexDigit_small h2, hexDigit_small h3, hexDigit_small h4⟩

theorem paired_escape {c : List UInt16} (h : IsCharacter c) : Paired (escapeCharacter c) := by
  rcases h with ⟨w, rfl⟩ | ⟨w, v, rfl, hhigh, hlow⟩
  · simp only [escapeCharacter]
    split_ifs with h1 h2 h3 h4 h5 h6 h7 h8
    all_goals first
      | exact .single rfl rfl (.single rfl rfl .nil)
      | exact paired_hex w
      | (simp only [Bool.or_eq_true, not_or, Bool.not_eq_true] at h8
         exact .single h8.1.2 h8.2 .nil)
  · exact .pair hhigh hlow .nil

theorem paired_string (s : Text) : Paired (stringifyString s) := by
  have hinner : Paired ((characters s).flatMap escapeCharacter) := by
    rw [List.flatMap_def]
    apply paired_flatten
    intro t ht
    obtain ⟨c, hc, rfl⟩ := List.mem_map.mp ht
    exact paired_escape (isCharacter_characters hc)
  exact .single rfl rfl (paired_append hinner (.single rfl rfl .nil))

theorem paired_separated {parts : List Text} (h : ∀ t ∈ parts, Paired t) : Paired (separated 44 parts) := by
  induction parts with
  | nil => exact .nil
  | cons t parts ih =>
    cases parts with
    | nil =>
      rw [separated_one]
      exact h t List.mem_cons_self
    | cons t' parts =>
      rw [separated_more]
      exact paired_append (h t List.mem_cons_self)
        (.single rfl rfl (ih fun t ht => h t (List.mem_cons_of_mem _ ht)))

theorem paired_null :
    Paired nullText := .single rfl rfl (.single rfl rfl (.single rfl rfl (.single rfl rfl .nil)))

theorem paired_bool (b : Bool) : Paired (boolText b) := by
  cases b with
  | true => exact .single rfl rfl (.single rfl rfl (.single rfl rfl (.single rfl rfl .nil)))
  | false => exact .single rfl rfl (.single rfl rfl
      (.single rfl rfl (.single rfl rfl (.single rfl rfl .nil))))

/-- A canonical text has no lone half of a pair. -/
theorem paired_text (v : Value N) : ∀ t, canonicalJson numerals v = .ok t → Paired t := by
  induction v using Value.byChildren with
  | step v ih =>
    intro t h
    cases v with
    | undefined => rw [← Except.ok.inj h]; exact paired_null
    | null => rw [← Except.ok.inj h]; exact paired_null
    | bool b => rw [← Except.ok.inj h]; exact paired_bool b
    | num n =>
      rw [← Except.ok.inj h]
      exact paired_ascii fun u hu => numeral_ascii (numerals.numeral n u hu)
    | nonFinite => cases h
    | str s => rw [← Except.ok.inj h]; exact paired_string s
    | arr items =>
      obtain ⟨ts, hts, rfl⟩ := (arr_ok numerals).mp h
      have hparts : ∀ t ∈ ts, Paired t := by
        intro t ht
        obtain ⟨c, hc, htext⟩ := texts_of_items numerals hts ht
        exact ih c hc t htext
      exact .single rfl rfl (paired_append (paired_separated hparts) (.single rfl rfl .nil))
    | obj entries =>
      obtain ⟨ps, hps, rfl⟩ := (obj_ok numerals).mp h
      have hparts : ∀ t ∈ ps.map entryText, Paired t := by
        intro t ht
        obtain ⟨⟨key, u⟩, hp, rfl⟩ := List.mem_map.mp ht
        obtain ⟨c, hc, htext⟩ := (mem_written numerals hps).mp hp
        exact paired_append (paired_string key) (.single rfl rfl (ih c (child_of_kept hc) u htext))
      exact .single rfl rfl (paired_append (paired_separated hparts) (.single rfl rfl .nil))
    | other type => cases h

theorem digest_ok {D : Type} {sha256 : List ℕ → D} {v : Value N} (hplain : Plain v) {d : D}
    (h : canonicalSourceControlArgumentsDigest numerals sha256 v = .ok d) :
    ∃ t, canonicalJson numerals (stripped v) = .ok t ∧ d = sha256 (encode t) := by
  unfold canonicalSourceControlArgumentsDigest at h
  cases hremoved : removeEphemeralAndRejectSensitive v with
  | error refusal => simp [hremoved] at h
  | ok v' =>
    obtain rfl := remove_ok v hplain v' hremoved
    cases htext : canonicalJson numerals (stripped v) with
    | error refusal => simp [hremoved, htext, Except.map] at h
    | ok t =>
      simp only [hremoved, htext, Except.map, Except.ok.injEq] at h
      exact ⟨t, rfl, h.symm⟩

/-- Digests are equal exactly for arguments that are read alike without the keys that
spell `confirmationid`. -/
theorem digest_eq_iff {D : Type} {sha256 : List ℕ → D} (hsha256 : Function.Injective sha256) {v w : Value N}
    (hformed : WellFormed v) (hformed' : WellFormed w) (hplain : Plain v) (hplain' : Plain w) {d e : D}
    (hv : canonicalSourceControlArgumentsDigest numerals sha256 v = .ok d)
    (hw : canonicalSourceControlArgumentsDigest numerals sha256 w = .ok e) :
    d = e ↔ Same true (stripped v) (stripped w) := by
  obtain ⟨t, ht, rfl⟩ := digest_ok numerals hplain hv
  obtain ⟨u, hu, rfl⟩ := digest_ok numerals hplain' hw
  have htexts : sha256 (encode t) = sha256 (encode u) ↔ t = u := by
    constructor
    · exact fun h => encode_inj (paired_text numerals _ t ht) (paired_text numerals _ u hu) (hsha256 h)
    · rintro rfl
      rfl
  rw [htexts]
  exact canonicalJson_eq_iff numerals (wellFormed_stripped v hformed) (wellFormed_stripped w hformed') ht hu

end Bytes

section Natural

/-- The digits of a natural number. -/
def decimalText (n : ℕ) : Text := (Nat.toDigits 10 n).map fun c => UInt16.ofNat c.toNat

theorem digit_units {n : ℕ} {c : Char} (h : c ∈ Nat.toDigits 10 n) :
    48 ≤ c.toNat ∧ c.toNat ≤ 57 ∧ (UInt16.ofNat c.toNat).toNat = c.toNat := by
  have hdigit := Nat.isDigit_of_mem_toDigits (by decide) (by decide) h
  simp only [Char.isDigit, Bool.and_eq_true, decide_eq_true_eq, ge_iff_le, UInt32.le_iff_toNat_le] at hdigit
  have hlow : 48 ≤ c.toNat := hdigit.1
  have hhigh : c.toNat ≤ 57 := hdigit.2
  exact ⟨hlow, hhigh, UInt16.toNat_ofNat_of_lt' (by show c.toNat < 65536; omega)⟩

theorem decimalText_inj : Function.Injective decimalText := by
  intro m n h
  have hback : ∀ k, (decimalText k).map (fun u => Char.ofNat u.toNat) = Nat.toDigits 10 k := by
    intro k
    rw [decimalText, List.map_map]
    refine (List.map_congr_left fun c hc => ?_).trans (List.map_id _)
    show Char.ofNat (UInt16.ofNat c.toNat).toNat = c
    rw [(digit_units hc).2.2, Char.ofNat_toNat]
  have hdigits : Nat.toDigits 10 m = Nat.toDigits 10 n := by rw [← hback, h, hback]
  rw [← Nat.ofDigitChars_ten_toDigits (n := m), hdigits, Nat.ofDigitChars_ten_toDigits]

def naturals : Numerals ℕ where
  text := decimalText
  injective := decimalText_inj
  nonempty n h := Nat.toDigits_ne_nil (List.map_eq_nil_iff.mp h)
  numeral n u hu := by
    obtain ⟨c, hc, rfl⟩ := List.mem_map.mp hu
    obtain ⟨hlow, hhigh, hnat⟩ := digit_units hc
    have hlow' : 48 ≤ UInt16.ofNat c.toNat := by rw [UInt16.le_iff_toNat_le, hnat]; exact hlow
    have hhigh' : UInt16.ofNat c.toNat ≤ 57 := by rw [UInt16.le_iff_toNat_le, hnat]; exact hhigh
    simp [isNumeral, hlow', hhigh']

end Natural

section Identification
variable {N : Type}

/-- Texts tell values apart that are not read alike, and so do digests without
the keys that spell `confirmationid`. -/
theorem canonical_identifies (numerals : Numerals N) {D : Type} (sha256 : List ℕ → D)
    (hsha256 : Function.Injective sha256) :
    (∀ v w t u, WellFormed v → WellFormed w → canonicalJson numerals v = .ok t →
      canonicalJson numerals w = .ok u →
      (t = u ↔ Same true v w)) ∧
    ∀ v w d e, WellFormed v → WellFormed w → Plain v → Plain w →
      canonicalSourceControlArgumentsDigest numerals sha256 v = .ok d →
      canonicalSourceControlArgumentsDigest numerals sha256 w = .ok e →
      (d = e ↔ Same true (stripped v) (stripped w)) := by
  constructor
  · intro v w t u hformed hformed' hv hw
    exact canonicalJson_eq_iff numerals hformed hformed' hv hw
  · intro v w d e hformed hformed' hplain hplain' hv hw
    exact digest_eq_iff numerals hsha256 hformed hformed' hplain hplain' hv hw

/-- A branch and its confirmation, and the same branch without one. -/
def confirmedPush :
    Value ℕ := .obj [(ofString "branch", .str (ofString "main")), (ofString "confirmation_id", .num 7)]

def plainPush : Value ℕ := .obj [(ofString "branch", .str (ofString "main"))]

theorem everywhere_flat {p : Value N → Prop} {entries : List (Text × Value N)} (h : p (.obj entries))
    (hvalues : ∀ e ∈ entries, e.2.children = [] ∧ p e.2) : Everywhere p (.obj entries) := by
  refine .intro _ h ?_
  intro c hc
  obtain ⟨e, he, rfl⟩ := List.mem_map.mp hc
  refine .intro _ (hvalues e he).2 ?_
  rw [(hvalues e he).1]
  simp

theorem canonical_identifies_sample :
    canonicalSourceControlArgumentsDigest naturals id confirmedPush =
        .ok (encode (braced [entryText (ofString "branch", stringifyString (ofString "main"))])) ∧
      Same true (stripped confirmedPush) (stripped plainPush) := by
  have hconfirmed : canonicalSourceControlArgumentsDigest naturals id confirmedPush =
      .ok (encode (braced [entryText (ofString "branch", stringifyString (ofString "main"))])) := by
        decide +kernel
  have hplain : canonicalSourceControlArgumentsDigest naturals id plainPush =
      .ok (encode (braced [entryText (ofString "branch", stringifyString (ofString "main"))])) := by
        decide +kernel
  have hkeys : confirmedPush.keys.Nodup ∧ plainPush.keys.Nodup ∧ protoKey ∉ confirmedPush.keys ∧
      protoKey ∉ plainPush.keys := by
    decide +kernel
  obtain ⟨hnodup, hnodup', hproto, hproto'⟩ := hkeys
  have hformed : WellFormed confirmedPush := everywhere_flat hnodup (by simp [Value.children, Value.keys])
  have hformed' : WellFormed plainPush := everywhere_flat hnodup' (by simp [Value.children, Value.keys])
  have hnames : Plain confirmedPush := everywhere_flat hproto (by simp [Value.children, Value.keys])
  have hnames' : Plain plainPush := everywhere_flat hproto' (by simp [Value.children, Value.keys])
  refine ⟨hconfirmed, ?_⟩
  exact ((canonical_identifies naturals id Function.injective_id).2 confirmedPush plainPush _ _
    hformed hformed' hnames hnames'
    hconfirmed hplain).mp rfl

/-- An undefined item has the text of null. -/
theorem undefined_item_as_null :
    canonicalJson naturals (.arr [.undefined]) = .ok (bracketed [nullText]) ∧
      canonicalJson naturals (.arr [.null]) = .ok (bracketed [nullText]) ∧
      WellFormed (.arr [.undefined] : Value ℕ) ∧ WellFormed (.arr [.null] : Value ℕ) ∧
      ¬ Same false (.arr [.undefined] : Value ℕ) (.arr [.null]) := by
  have hitem : ∀ v : Value ℕ, v.children = [] → v.keys = [] → WellFormed (.arr [v]) := by
    intro v hchildren hkeys
    refine .intro _ List.nodup_nil ?_
    intro c hc
    rw [List.mem_singleton.mp hc]
    exact .intro _ (by rw [hkeys]; exact List.nodup_nil) (by rw [hchildren]; simp)
  refine ⟨rfl, rfl, hitem _ rfl rfl, hitem _ rfl rfl, ?_⟩
  intro h
  cases h with
  | arr hlength hitems =>
    cases hitems 0 (by simp) (by simp) with
    | absent hlax => cases hlax

end Identification

end AccessStack.Confirmations
