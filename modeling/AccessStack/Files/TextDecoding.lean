import AccessStack.Files.TextPatchLaws

/-!
# What the decoders keep of the bytes

The cells of a decoded text cut its bytes up and have no lone half. Where the
bytes are well formed the encoding gives each character its bytes back. The
text begins with a byte order mark only where the bytes do.
-/

set_option autoImplicit false

namespace AccessStack.TextPatch
open AccessStack.Units AccessStack.Utf8 AccessStack.Utf16

section Utf8

theorem pieceCells_small {p : Piece} (h : p.char < 0x10000) :
    pieceCells p = [⟨UInt16.ofNat p.char, .whole p.bytes⟩] := if_pos h

theorem pieceCells_large {p : Piece} (h : ¬ p.char < 0x10000) :
    pieceCells p = [⟨highHalf p.char, .first p.bytes⟩, ⟨lowHalf p.char, .second p.bytes⟩] := if_neg h

theorem textOf_piece (p : Piece) : textOf (pieceCells p) = scalarUnits p.char := by
  unfold pieceCells scalarUnits
  split_ifs <;> rfl

theorem textOf_utf8 (bytes : List ℕ) : textOf (utf8Cells bytes) = (decode bytes).flatMap scalarUnits := by
  rw [textOf, utf8Cells, List.map_flatMap, decode, List.flatMap_map]
  exact List.flatMap_congr fun p _ => textOf_piece p

theorem paired_utf8 (bytes : List ℕ) : Paired (textOf (utf8Cells bytes)) := by
  rw [textOf_utf8]
  exact paired_scalars fun c hc => decode_scalar hc

theorem encode_utf8 (bytes : List ℕ) : encode (textOf (utf8Cells bytes)) = encodeText (decode bytes) := by
  rw [textOf_utf8, encode_scalars, scalars_units fun c hc => decode_scalar hc]

theorem utf8_encode {t : Text} (h : Paired t) : textOf (utf8Cells (encode t)) = t := by
  rw [textOf_utf8, encode_scalars, decode_encode fun c hc => scalar_scalars hc, units_scalars h]

theorem kept_utf8 {enc : Text → List ℕ} (henc : enc [] = []) (bytes : List ℕ) :
    kept enc [] (utf8Cells bytes) = bytes := by
  have hpieces : ∀ ps : List Piece, kept enc [] (ps.flatMap pieceCells) = ps.flatMap Piece.bytes := by
    intro ps
    induction ps with
    | nil => exact henc
    | cons p ps ih =>
      rw [List.flatMap_cons, List.flatMap_cons]
      by_cases hsmall : p.char < 0x10000
      · rw [pieceCells_small hsmall, List.singleton_append, kept, henc, ih]
        rfl
      · rw [pieceCells_large hsmall, List.cons_append, List.cons_append, kept, if_pos rfl, henc,
          List.nil_append, List.nil_append, ih]
  rw [utf8Cells, hpieces, pieces_bytes]

theorem mem_utf8Cells {bytes : List ℕ} (h : Valid bytes) {c : Cell} (hc : c ∈ utf8Cells bytes) :
    ∃ s, IsScalar s ∧ if s < 0x10000 then c = ⟨UInt16.ofNat s, .whole (scalarBytes s)⟩
      else c = ⟨highHalf s, .first (scalarBytes s)⟩ ∨ c = ⟨lowHalf s, .second (scalarBytes s)⟩ := by
  obtain ⟨p, hp, hc⟩ := List.mem_flatMap.mp hc
  obtain ⟨s, hs⟩ := Option.isSome_iff_exists.mp (h p hp)
  obtain ⟨hscalar, hbytes⟩ := sound_pieces hp s hs
  have hchar : p.char = s := by rw [Piece.char, hs]; rfl
  refine ⟨s, hscalar, ?_⟩
  by_cases hsmall : s < 0x10000
  · rw [pieceCells_small (hchar ▸ hsmall), hchar, hbytes] at hc
    rw [if_pos hsmall]
    exact List.mem_singleton.mp hc
  · rw [pieceCells_large (hchar ▸ hsmall), hchar, hbytes] at hc
    rw [if_neg hsmall]
    rcases List.mem_cons.mp hc with hc | hc
    · exact .inl hc
    · exact .inr (List.mem_singleton.mp hc)

theorem whole_utf8 {bytes : List ℕ} (h : Valid bytes) {u : UInt16} {b : List ℕ}
    (hc : ⟨u, .whole b⟩ ∈ utf8Cells bytes) :
    ∃ s, IsScalar s ∧ s < 0x10000 ∧ u = UInt16.ofNat s ∧ b = scalarBytes s := by
  obtain ⟨s, hs, hcell⟩ := mem_utf8Cells h hc
  split_ifs at hcell with hsmall
  · obtain ⟨hunit, horigin⟩ := Cell.mk.inj hcell
    exact ⟨s, hs, hsmall, hunit, Origin.whole.inj horigin⟩
  · rcases hcell with hcell | hcell <;> cases (Cell.mk.inj hcell).2

theorem first_utf8 {bytes : List ℕ} (h : Valid bytes) {u : UInt16} {b : List ℕ}
    (hc : ⟨u, .first b⟩ ∈ utf8Cells bytes) :
    ∃ s, IsScalar s ∧ ¬ s < 0x10000 ∧ u = highHalf s ∧ b = scalarBytes s := by
  obtain ⟨s, hs, hcell⟩ := mem_utf8Cells h hc
  split_ifs at hcell with hsmall
  · cases (Cell.mk.inj hcell).2
  · rcases hcell with hcell | hcell
    · obtain ⟨hunit, horigin⟩ := Cell.mk.inj hcell
      exact ⟨s, hs, hsmall, hunit, Origin.first.inj horigin⟩
    · cases (Cell.mk.inj hcell).2

theorem second_utf8 {bytes : List ℕ} (h : Valid bytes) {u : UInt16} {b : List ℕ}
    (hc : ⟨u, .second b⟩ ∈ utf8Cells bytes) :
    ∃ s, IsScalar s ∧ ¬ s < 0x10000 ∧ u = lowHalf s ∧ b = scalarBytes s := by
  obtain ⟨s, hs, hcell⟩ := mem_utf8Cells h hc
  split_ifs at hcell with hsmall
  · cases (Cell.mk.inj hcell).2
  · rcases hcell with hcell | hcell
    · cases (Cell.mk.inj hcell).2
    · obtain ⟨hunit, horigin⟩ := Cell.mk.inj hcell
      exact ⟨s, hs, hsmall, hunit, Origin.second.inj horigin⟩

theorem encode_parts (p : Text) {u : UInt16} (hlow : isLow u = false) (t : Text) :
    encode (p ++ u :: t) = encode p ++ encode (u :: t) := by
  apply encode_append
  intro v hv
  cases hv
  exact hlow

theorem faithful_utf8 {bytes : List ℕ} (h : Valid bytes) : Faithful encode (utf8Cells bytes) where
  whole u b hu p t := by
    obtain ⟨s, hs, hsmall, rfl, rfl⟩ := whole_utf8 h hu
    obtain ⟨hhigh, hlow, hscalar⟩ := small_scalar hs hsmall
    rw [encode_parts p hlow, encode_cons hhigh, hscalar, List.append_assoc]
  pair u v b hu hv p t := by
    obtain ⟨s, hs, hlarge, rfl, rfl⟩ := first_utf8 h hu
    obtain ⟨s', hs', -, rfl, hbytes⟩ := second_utf8 h hv
    obtain rfl := scalarBytes_inj hs hs' hbytes
    obtain ⟨hhigh, hlow, hscalar⟩ := large_scalar hs hlarge
    have hpair : (isHigh (highHalf s) && isLow (lowHalf s)) = true := Bool.and_eq_true_iff.mpr ⟨hhigh, hlow⟩
    rw [encode_parts p (high_not_low hhigh), encode, if_pos hpair, hscalar, List.append_assoc]

/-- A text that begins with a mark has been read of bytes that do. -/
theorem mark_utf8 {bytes : List ℕ} (h : (textOf (utf8Cells bytes)).head? = some byteOrderMark) :
    bomOf .utf8 <+: bytes := by
  have hbytes := pieces_bytes bytes
  have hsound : ∀ p ∈ pieces bytes, Sound p := fun p hp => sound_pieces hp
  have hscalars : ∀ c ∈ decode bytes, IsScalar c := fun c hc => decode_scalar hc
  rw [utf8Cells] at h
  cases hpieces : pieces bytes with
  | nil =>
    rw [hpieces] at h
    cases h
  | cons p ps =>
    rw [hpieces] at h hbytes hsound
    rw [List.flatMap_cons] at hbytes
    have hchar : p.char = 0xfeff := by
      rw [List.flatMap_cons] at h
      by_cases hsmall : p.char < 0x10000
      · rw [pieceCells_small hsmall] at h
        have hunit : UInt16.ofNat p.char = byteOrderMark := Option.some.inj h
        rw [← toNat_ofNat hsmall, hunit]
        rfl
      · rw [pieceCells_large hsmall] at h
        have hunit : highHalf p.char = byteOrderMark := Option.some.inj h
        have hdecoded : IsScalar p.char := hscalars p.char (by rw [decode, hpieces]; exact List.mem_cons_self)
        have hhigh := (large_scalar hdecoded hsmall).1
        rw [hunit] at hhigh
        exact absurd hhigh (by decide)
    cases hscalar : p.scalar with
    | none =>
      rw [Piece.char, hscalar] at hchar
      exact absurd hchar (by decide)
    | some s =>
      have hs : s = 0xfeff := by rwa [Piece.char, hscalar] at hchar
      rw [(hsound p List.mem_cons_self s hscalar).2, hs] at hbytes
      exact ⟨_, hbytes⟩

end Utf8

section Utf16
variable (little : Bool)

def bytes16 (t : Text) : List ℕ := t.flatMap (unitBytes16 little)

/-- The bytes are those of a text. -/
def IsUtf16 (bytes : List ℕ) : Prop := ∃ t, Paired t ∧ bytes16 little t = bytes

def wholeCell (u : UInt16) : Cell := ⟨u, .whole (unitBytes16 little u)⟩

theorem unitBytes_unitOf {a b : ℕ} (ha : a < 256) (hb : b < 256) :
    unitBytes16 little (unitOf little a b) = [a, b] := by
  cases little with
  | true =>
    have hnat : (unitOf true a b).toNat = a + 256 * b := toNat_ofNat (by simp only [if_true]; omega)
    rw [unitBytes16, if_pos rfl, hnat]
    congr 1
    · omega
    · congr 1
      omega
  | false =>
    have hnat : (unitOf false a b).toNat = 256 * a + b :=
      toNat_ofNat (by simp only [Bool.false_eq_true, if_false]; omega)
    rw [unitBytes16, if_neg Bool.false_ne_true, hnat]
    congr 1
    · omega
    · congr 1
      omega

theorem unitBytes_eq (u : UInt16) : ∃ a b, unitBytes16 little u = [a, b] ∧ unitOf little a b = u := by
  have hlt := u.toNat_lt
  cases little with
  | true =>
    refine ⟨u.toNat % 256, u.toNat / 256, rfl, ?_⟩
    have hvalue : u.toNat % 256 + 256 * (u.toNat / 256) = u.toNat := by omega
    rw [unitOf, if_pos rfl, hvalue, UInt16.ofNat_toNat]
  | false =>
    refine ⟨u.toNat / 256, u.toNat % 256, rfl, ?_⟩
    have hvalue : 256 * (u.toNat / 256) + u.toNat % 256 = u.toNat := by omega
    rw [unitOf, if_neg Bool.false_ne_true, hvalue, UInt16.ofNat_toNat]

theorem utf16Cells_single {a b : ℕ} (h : isHigh (unitOf little a b) = false) (rest : List ℕ) :
    utf16Cells little (a :: b :: rest) =
      ⟨alone (unitOf little a b), .whole [a, b]⟩ :: utf16Cells little rest := by
  match rest with
  | [] => rfl
  | [c] =>
    show (if isHigh (unitOf little a b) then _ else _) = _
    rw [h]
    rfl
  | c::d::rest => rw [utf16Cells, h]; rfl

/-- The bytes of a text are read as its units. -/
theorem utf16_encode {t : Text} (h : Paired t) :
    utf16Cells little (bytes16 little t) = t.map (wholeCell little) := by
  induction h with
  | nil => rfl
  | @single u us hhigh hlow _ ih =>
    obtain ⟨a, b, hbytes, hunit⟩ := unitBytes_eq little u
    have halone : alone u = u := by rw [alone, hhigh, hlow]; rfl
    show utf16Cells little (unitBytes16 little u ++ bytes16 little us) = _
    rw [hbytes, List.cons_append, List.cons_append, List.nil_append,
      utf16Cells_single little (by rw [hunit]; exact hhigh), ih,
      hunit, halone, List.map_cons, wholeCell, hbytes]
  | @pair u v us hhigh hlow _ ih =>
    obtain ⟨a, b, hbytes, hunit⟩ := unitBytes_eq little u
    obtain ⟨c, d, hbytes', hunit'⟩ := unitBytes_eq little v
    have hpair : (isHigh u && isLow v) = true := Bool.and_eq_true_iff.mpr ⟨hhigh, hlow⟩
    show utf16Cells little (unitBytes16 little u ++ (unitBytes16 little v ++ bytes16 little us)) = _
    rw [hbytes, hbytes']
    show utf16Cells little (a :: b :: c :: d :: bytes16 little us) = _
    rw [utf16Cells, hunit, hunit', if_pos hpair, ih, List.map_cons, List.map_cons, wholeCell,
      wholeCell, hbytes, hbytes']

theorem paired_alone (u : UInt16) {us : Text} (h : Paired us) : Paired (alone u :: us) := by
  unfold alone
  split_ifs with hhalf
  · exact .single rfl rfl h
  · simp only [Bool.or_eq_true, not_or, Bool.not_eq_true] at hhalf
    exact .single hhalf.1 hhalf.2 h

theorem paired_utf16 (bytes : List ℕ) : Paired (textOf (utf16Cells little bytes)) := by
  induction bytes using utf16Cells.induct little with
  | case1 => exact .nil
  | case2 a => exact .single rfl rfl .nil
  | case3 a b => exact paired_alone _ .nil
  | case4 a b c h => rw [utf16Cells, if_pos h]; exact .single rfl rfl .nil
  | case5 a b c h => rw [utf16Cells, if_neg h]; exact paired_alone _ (.single rfl rfl .nil)
  | case6 a b c d rest h ih =>
    obtain ⟨hhigh, hlow⟩ := Bool.and_eq_true_iff.mp h
    rw [utf16Cells, if_pos h]
    exact .pair hhigh hlow ih
  | case7 a b c d rest h ih =>
    rw [utf16Cells, if_neg h]
    exact paired_alone _ ih

theorem kept_utf16 {enc : Text → List ℕ} (henc : enc [] = []) (bytes : List ℕ) :
    kept enc [] (utf16Cells little bytes) = bytes := by
  induction bytes using utf16Cells.induct little with
  | case1 => exact henc
  | case2 a => simp [utf16Cells, kept, henc]
  | case3 a b => simp [utf16Cells, kept, henc]
  | case4 a b c h => simp [utf16Cells, h, kept, henc]
  | case5 a b c h => simp [utf16Cells, h, kept, henc]
  | case6 a b c d rest h ih =>
    rw [utf16Cells, if_pos h]
    simp [kept, henc, ih]
  | case7 a b c d rest h ih =>
    rw [utf16Cells, if_neg h]
    simp [kept, henc, ih]

theorem bytes_append (p t : Text) :
    bytes16 little (p ++ t) = bytes16 little p ++ bytes16 little t := List.flatMap_append

theorem faithful_utf16 {bytes : List ℕ} (h : IsUtf16 little bytes) :
    Faithful (bytes16 little) (utf16Cells little bytes) := by
  obtain ⟨t, ht, rfl⟩ := h
  rw [utf16_encode little ht]
  constructor
  · intro u b hu p s
    obtain ⟨v, -, hv⟩ := List.mem_map.mp hu
    obtain ⟨rfl, horigin⟩ := Cell.mk.inj hv
    rw [← Origin.whole.inj horigin, bytes_append, List.append_assoc]
    rfl
  · intro u v b hu
    obtain ⟨w, -, hw⟩ := List.mem_map.mp hu
    cases (Cell.mk.inj hw).2

/-- The bytes come back exactly where they are those of a text. -/
theorem reencode_utf16 (bytes : List ℕ) :
    bytes16 little (textOf (utf16Cells little bytes)) = bytes ↔ IsUtf16 little bytes := by
  constructor
  · intro h
    exact ⟨_, paired_utf16 little bytes, h⟩
  · rintro ⟨t, ht, rfl⟩
    rw [utf16_encode little ht, textOf, List.map_map]
    exact congrArg _ (List.map_id t)

theorem alone_mark {u : UInt16} (h : alone u = byteOrderMark) : u = byteOrderMark := by
  unfold alone at h
  split_ifs at h
  · exact absurd h (by decide)
  · exact h

def mark16 : List ℕ := unitBytes16 little byteOrderMark

theorem replacement_ne_mark : replacementUnit ≠ byteOrderMark := by decide

theorem mark_utf16 {bytes : List ℕ} (hbytes : ∀ b ∈ bytes, b < 256)
    (h : (textOf (utf16Cells little bytes)).head? = some byteOrderMark) : mark16 little <+: bytes := by
  have hunit : ∀ a b rest, bytes = a :: b :: rest → alone (unitOf little a b) = byteOrderMark →
      mark16 little <+: bytes := by
    rintro a b rest rfl hmark
    have hunits := unitBytes_unitOf little (hbytes a (by simp)) (hbytes b (by simp))
    rw [alone_mark hmark] at hunits
    exact ⟨rest, by rw [mark16, hunits]; rfl⟩
  match bytes, h with
  | [a], h => exact absurd (Option.some.inj h) replacement_ne_mark
  | [a, b], h => exact hunit a b [] rfl (Option.some.inj h)
  | [a, b, c], h =>
    rw [utf16Cells] at h
    split_ifs at h
    · exact absurd (Option.some.inj h) replacement_ne_mark
    · exact hunit a b [c] rfl (Option.some.inj h)
  | a::b::c::d::rest, h =>
    rw [utf16Cells] at h
    split_ifs at h with hpair
    · have hmark : unitOf little a b = byteOrderMark := Option.some.inj h
      rw [hmark] at hpair
      exact absurd hpair (by simp [show isHigh byteOrderMark = false from rfl])
    · exact hunit a b (c :: d :: rest) rfl (Option.some.inj h)

end Utf16

section Windows

theorem windowsHigh_distinct : ∀ i < 32, ∀ j < 32, windowsHigh.getD i 0 = windowsHigh.getD j 0 → i = j := by
  decide +kernel

/-- No byte from 0x80 to 0x9f has the unit of another byte. -/
theorem windowsHigh_apart : ∀ i < 32, 256 ≤ (windowsHigh.getD i 0).toNat ∨
    0x80 ≤ (windowsHigh.getD i 0).toNat ∧ (windowsHigh.getD i 0).toNat < 0xa0 := by
  decide +kernel

theorem windows1252_inj {b c : ℕ} (hb : b < 256) (hc : c < 256)
    (h : windows1252 b = windows1252 c) : b = c := by
  have hplain : ∀ n < 256, (UInt16.ofNat n).toNat = n :=
    fun n hn => UInt16.toNat_ofNat_of_lt' (hn.trans (by decide))
  unfold windows1252 at h
  by_cases hhb : 0x80 ≤ b ∧ b < 0xa0 <;> by_cases hhc : 0x80 ≤ c ∧ c < 0xa0
  · rw [if_pos hhb, if_pos hhc] at h
    have hsame := windowsHigh_distinct (b - 0x80) (by omega) (c - 0x80) (by omega) h
    omega
  · rw [if_pos hhb, if_neg hhc] at h
    have hapart := windowsHigh_apart (b - 0x80) (by omega)
    rw [h, hplain c hc] at hapart
    omega
  · rw [if_neg hhb, if_pos hhc] at h
    have hapart := windowsHigh_apart (c - 0x80) (by omega)
    rw [← h, hplain b hb] at hapart
    omega
  · rw [if_neg hhb, if_neg hhc] at h
    rw [← hplain b hb, h, hplain c hc]

theorem windows1252_known : ∀ b < 256, windows1252 b ≠ replacementUnit := by decide +kernel

theorem kept_windows {enc : Text → List ℕ} (henc : enc [] = []) (bytes : List ℕ) :
    kept enc [] (bytes.map fun b => ⟨windows1252 b, .whole [b]⟩) = bytes := by
  induction bytes with
  | nil => exact henc
  | cons b bytes ih =>
    rw [List.map_cons, kept, henc, ih]
    rfl

end Windows

end AccessStack.TextPatch
