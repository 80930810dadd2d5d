import AccessStack.Properties
import AccessStack.Confirmations.CanonicalText

/-!
# Which values have the same canonical text

Those that are read alike: the same items, and for every key the same property,
where a missing property is undefined. Between undefined and null the text
makes no difference where a value is written, and the digest makes none between
arguments that differ in the keys that spell `confirmationid`.
-/

set_option autoImplicit false

namespace AccessStack.Confirmations
open AccessStack.Units AccessStack.Delimiters AccessStack.Utf16

section Equality
variable {N : Type}

def Value.keys : Value N → List Text
  | .obj entries => entries.map Prod.fst
  | _ => []

/-- Of a value and all that is inside it. -/
inductive Everywhere (p : Value N → Prop) : Value N → Prop where
  | intro (v : Value N) : p v → (∀ c ∈ v.children, Everywhere p c) → Everywhere p v

/-- An object has one property of a name. -/
def WellFormed : Value N → Prop := Everywhere fun v => v.keys.Nodup

/-- What reading a property gives. -/
def property (entries : List (Text × Value N)) (key : Text) : Value N :=
  (Properties.get entries key).getD .undefined

/-- Equality up to the order of the keys and to entries whose value is
undefined, and where it is lax also between undefined and null. -/
inductive Same (lax : Bool) : Value N → Value N → Prop where
  | atom (v : Value N) : v.children = [] → Same lax v v
  | absent : lax = true → Same lax .undefined .null
  | present : lax = true → Same lax .null .undefined
  | arr {items items' : List (Value N)} : items.length = items'.length →
      (∀ i (h : i < items.length) (h' : i < items'.length), Same lax items[i] items'[i]) →
        Same lax (.arr items) (.arr items')
  | obj {entries entries' : List (Text × Value N)} :
      (∀ key, property entries key = .undefined ↔ property entries' key = .undefined) →
      (∀ key, property entries key ≠ .undefined → Same lax (property entries key) (property entries' key)) →
      Same lax (.obj entries) (.obj entries')

theorem Everywhere.here {p : Value N → Prop} {v : Value N} (h : Everywhere p v) : p v := by
  cases h with
  | intro _ hv _ => exact hv

theorem Everywhere.inside {p : Value N → Prop} {v c : Value N} (h : Everywhere p v)
    (hc : c ∈ v.children) : Everywhere p c := by
  cases h with
  | intro _ _ hchildren => exact hchildren c hc

theorem property_of_mem {entries : List (Text × Value N)} (h : (entries.map Prod.fst).Nodup)
    {key : Text} {v : Value N} (hmem : (key, v) ∈ entries) : property entries key = v := by
  rw [property, Properties.get_of_mem h hmem]
  rfl

theorem mem_of_property {entries : List (Text × Value N)} {key : Text}
    (h : property entries key ≠ .undefined) :
    (key, property entries key) ∈ entries := by
  unfold property Properties.get at h ⊢
  cases hfind : entries.find? (·.1 = key) with
  | none =>
    rw [hfind] at h
    exact absurd rfl h
  | some e =>
    have hkey : e.1 = key := by simpa using List.find?_some hfind
    have hmem := List.mem_of_find?_eq_some hfind
    rw [← hkey]
    exact hmem

theorem mem_kept_iff {entries : List (Text × Value N)} (h : (entries.map Prod.fst).Nodup)
    {key : Text} {v : Value N} :
    (key, v) ∈ kept entries ↔ property entries key = v ∧ v ≠ .undefined := by
  rw [mem_kept]
  constructor
  · rintro ⟨hmem, hv⟩
    exact ⟨property_of_mem h hmem, hv⟩
  · rintro ⟨rfl, hv⟩
    exact ⟨mem_of_property hv, hv⟩

end Equality

section Canonical
variable {N : Type} (numerals : Numerals N)

theorem canonicalItems_congr {items items' : List (Value N)}
    (h : items.map (canonicalJson numerals) = items'.map (canonicalJson numerals)) :
    canonicalItems numerals items = canonicalItems numerals items' := by
  induction items generalizing items' with
  | nil =>
    cases items' with
    | nil => rfl
    | cons v' items' => cases h
  | cons v items ih =>
    cases items' with
    | nil => cases h
    | cons v' items' =>
      obtain ⟨hv, hitems⟩ := List.cons.inj h
      rw [canonicalItems, canonicalItems, hv, ih hitems]

theorem nodup_written {entries : List (Text × Value N)} (h : (entries.map Prod.fst).Nodup) :
    ((canonicalEntries numerals entries).map Prod.fst).Nodup := by
  rw [canonicalEntries_kept, List.map_map]
  exact h.sublist (List.filter_sublist.map _)

theorem mem_canonicalEntries {entries : List (Text × Value N)} (h : (entries.map Prod.fst).Nodup) {key : Text}
    {text : Except Refusal Text} : (key, text) ∈ canonicalEntries numerals entries ↔
      property entries key ≠ .undefined ∧ text = canonicalJson numerals (property entries key) := by
  rw [canonicalEntries_kept, List.mem_map]
  constructor
  · rintro ⟨⟨key', v⟩, he, heq⟩
    obtain ⟨rfl, rfl⟩ := Prod.mk.inj heq
    obtain ⟨rfl, hv⟩ := (mem_kept_iff h).mp he
    exact ⟨hv, rfl⟩
  · rintro ⟨hv, rfl⟩
    exact ⟨(key, _), (mem_kept_iff h).mpr ⟨rfl, hv⟩, rfl⟩

theorem property_child {entries : List (Text × Value N)} {key : Text}
    (h : property entries key ≠ .undefined) :
    property entries key ∈ (Value.obj entries).children := List.mem_map.mpr ⟨_, mem_of_property h, rfl⟩

/-- Values that are read alike have one text. -/
theorem canonicalJson_congr {v w : Value N} (h : Same true v w) (hv : WellFormed v) (hw : WellFormed w) :
    canonicalJson numerals v = canonicalJson numerals w := by
  induction h with
  | atom v _ => rfl
  | absent _ => rfl
  | present _ => rfl
  | arr hlength _ ih =>
    rw [canonicalJson, canonicalJson]
    congr 1
    apply canonicalItems_congr
    apply List.ext_getElem
    · simpa using hlength
    · intro i hi hi'
      rw [List.length_map] at hi hi'
      rw [List.getElem_map, List.getElem_map]
      exact ih i hi hi' (hv.inside (List.getElem_mem hi)) (hw.inside (List.getElem_mem hi'))
  | @obj entries entries' hmissing _ ih =>
    have hkeys := hv.here
    have hkeys' := hw.here
    have hperm : (canonicalEntries numerals entries).Perm (canonicalEntries numerals entries') := by
      refine (List.perm_ext_iff_of_nodup (nodup_written numerals hkeys).of_map
        (nodup_written numerals hkeys').of_map).mpr ?_
      rintro ⟨key, text⟩
      rw [mem_canonicalEntries numerals hkeys, mem_canonicalEntries numerals hkeys', ne_eq,
        ne_eq, ← hmissing key]
      refine and_congr_right fun hdefined => ?_
      have hdefined' : property entries' key ≠ .undefined := fun hnone => hdefined ((hmissing key).mpr hnone)
      rw [ih key hdefined (hv.inside (property_child hdefined)) (hw.inside (property_child hdefined'))]
    have hsorted :=
      (byKey_eq_iff (· ≤ ·) (fun _ _ h h' => List.le_antisymm h h') (nodup_written numerals hkeys)).mpr hperm
    rw [canonicalJson, canonicalJson, hsorted]

theorem written_property {entries : List (Text × Value N)} (hkeys : (entries.map Prod.fst).Nodup)
    {ps : List (Text × Text)}
    (hps : byKey (· ≤ ·) (canonicalEntries numerals entries) = ps.map fun p => (p.1, .ok p.2))
    {key t : Text} :
    (key, t) ∈ ps ↔ property entries key ≠ .undefined ∧
    canonicalJson numerals (property entries key) = .ok t := by
  rw [mem_written numerals hps]
  constructor
  · rintro ⟨v, hv, htext⟩
    obtain ⟨rfl, hdefined⟩ := (mem_kept_iff hkeys).mp hv
    exact ⟨hdefined, htext⟩
  · rintro ⟨hdefined, htext⟩
    exact ⟨_, (mem_kept_iff hkeys).mpr ⟨rfl, hdefined⟩, htext⟩

theorem property_written {entries : List (Text × Value N)} (hkeys : (entries.map Prod.fst).Nodup)
    {ps : List (Text × Text)}
    (hps : byKey (· ≤ ·) (canonicalEntries numerals entries) = ps.map fun p => (p.1, .ok p.2)) {key : Text}
    (h : property entries key ≠ .undefined) : ∃ t, (key, t) ∈ ps := by
  have hmem := (mem_canonicalEntries numerals hkeys).mpr ⟨h, rfl⟩
  rw [← (perm_byKey (· ≤ ·) (canonicalEntries numerals entries)).mem_iff, hps, List.mem_map] at hmem
  obtain ⟨⟨key', t⟩, hp, heq⟩ := hmem
  obtain ⟨rfl, -⟩ := Prod.mk.inj heq
  exact ⟨t, hp⟩

/-- The text says which value it is of, as far as reading goes. -/
theorem same_of_text (v : Value N) : ∀ w t, WellFormed v → WellFormed w → canonicalJson numerals v = .ok t →
    canonicalJson numerals w = .ok t → Same true v w := by
  induction v using Value.byChildren with
  | step v ih =>
    intro w t hformed hformed' hv hw
    have hmark := mark_eq numerals hv hw (r := []) (s := []) rfl
    cases v with
    | undefined =>
      rcases of_mark_null hmark with rfl | rfl
      · exact .atom _ rfl
      · exact .absent rfl
    | null =>
      rcases of_mark_null hmark with rfl | rfl
      · exact .present rfl
      · exact .atom _ rfl
    | bool b =>
      obtain rfl := of_mark_bool hmark
      exact .atom _ rfl
    | num n =>
      rcases of_mark_num hmark with ⟨m, rfl⟩ | rfl
      · obtain rfl := numerals.injective (Except.ok.inj (hv.trans hw.symm))
        exact .atom _ rfl
      · cases hw
    | nonFinite => cases hv
    | str a =>
      obtain ⟨b, rfl⟩ := of_mark_str hmark
      have htext : stringifyString a = stringifyString b := Except.ok.inj (hv.trans hw.symm)
      have hab : a = b := (string_told (congrArg (· ++ []) htext)).1
      subst hab
      exact .atom _ rfl
    | arr items =>
      obtain ⟨items', rfl⟩ := of_mark_arr hmark
      obtain ⟨ts, hts, rfl⟩ := (arr_ok numerals).mp hv
      obtain ⟨us, hus, htext⟩ := (arr_ok numerals).mp hw
      obtain ⟨rfl, -⟩ := items_told numerals (fun c _ => text_told numerals c) hts hus
        (congrArg (· ++ []) htext)
      refine .arr (hts.length_eq.trans hus.length_eq.symm) ?_
      intro i hi hi'
      have hlength := hts.length_eq
      exact ih _ (List.getElem_mem hi) _ ts[i] (hformed.inside (List.getElem_mem hi))
        (hformed'.inside (List.getElem_mem hi'))
        (hts.get hi (by omega)) (hus.get hi' (by omega))
    | obj entries =>
      obtain ⟨entries', rfl⟩ := of_mark_obj hmark
      obtain ⟨ps, hps, rfl⟩ := (obj_ok numerals).mp hv
      obtain ⟨qs, hqs, htext⟩ := (obj_ok numerals).mp hw
      obtain ⟨rfl, -⟩ := entries_told numerals (fun e _ => text_told numerals e.2) hps hqs
        (congrArg (· ++ []) htext)
      have hdefined : ∀ key, property entries key ≠ .undefined ↔ property entries' key ≠ .undefined := by
        intro key
        constructor
        · intro h
          obtain ⟨t, ht⟩ := property_written numerals hformed.here hps h
          exact ((written_property numerals hformed'.here hqs).mp ht).1
        · intro h
          obtain ⟨t, ht⟩ := property_written numerals hformed'.here hqs h
          exact ((written_property numerals hformed.here hps).mp ht).1
      refine .obj (fun key => not_iff_not.mp (hdefined key)) ?_
      intro key h
      have h' := (hdefined key).mp h
      obtain ⟨t, ht⟩ := property_written numerals hformed.here hps h
      exact ih _ (property_child h) _ t (hformed.inside (property_child h))
        (hformed'.inside (property_child h'))
        ((written_property numerals hformed.here hps).mp ht).2
          ((written_property numerals hformed'.here hqs).mp ht).2
    | other type => cases hv

/-- Canonical texts are equal exactly for values that are read alike. -/
theorem canonicalJson_eq_iff {v w : Value N} (hformed : WellFormed v) (hformed' : WellFormed w) {t u : Text}
    (hv : canonicalJson numerals v = .ok t) (hw : canonicalJson numerals w = .ok u) :
    t = u ↔ Same true v w := by
  constructor
  · rintro rfl
    exact same_of_text numerals v w t hformed hformed' hv hw
  · intro h
    have htexts := canonicalJson_congr numerals h hformed hformed'
    exact Except.ok.inj (hv.symm.trans (htexts.trans hw))

end Canonical

end AccessStack.Confirmations
