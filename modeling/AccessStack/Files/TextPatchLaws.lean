import AccessStack.Files.TextPatch

/-!
# When a patch keeps the bytes it does not replace

The bytes of a patched file should be the marks the file begins with, then the
old bytes of each character that has not been touched, and the encoding of what
stands between them. They are so for every patch exactly when what follows the
mark is well formed and has no second mark.
-/

set_option autoImplicit false

namespace AccessStack.TextPatch
open AccessStack.Units AccessStack.Utf8 AccessStack.Utf16

section Provenance

/-- The old bytes of the characters that are whole, and the encoding of the
runs of units between them, of which one is pending. -/
def kept (enc : Text → List ℕ) : Text → List Cell → List ℕ
  | pending, [] => enc pending
  | pending, ⟨_, .whole bytes⟩::rest => enc pending ++ bytes ++ kept enc [] rest
  | pending, ⟨u, .first bytes⟩::⟨v, .second bytes'⟩::rest =>
    if bytes = bytes' then enc pending ++ bytes ++ kept enc [] rest else kept enc (pending ++ [u])
      (⟨v, .second bytes'⟩::rest)
  | pending, ⟨u, _⟩::rest => kept enc (pending ++ [u]) rest

/-- The encoding gives the characters of the file their bytes wherever they stand. -/
structure Faithful (enc : Text → List ℕ) (cells : List Cell) : Prop where
  whole : ∀ u bytes, ⟨u, .whole bytes⟩ ∈ cells → ∀ p t, enc (p ++ u :: t) = enc p ++ bytes ++ enc t
  pair : ∀ u v bytes, ⟨u, .first bytes⟩ ∈ cells → ⟨v, .second bytes⟩ ∈ cells →
    ∀ p t, enc (p ++ u :: v :: t) = enc p ++ bytes ++ enc t

theorem Faithful.tail {enc : Text → List ℕ} {c : Cell} {cells : List Cell} (h : Faithful enc (c :: cells)) :
    Faithful enc cells where
  whole u bytes hu := h.whole u bytes (List.mem_cons_of_mem _ hu)
  pair u v bytes hu hv := h.pair u v bytes (List.mem_cons_of_mem _ hu) (List.mem_cons_of_mem _ hv)

/-- With such an encoding nothing is lost by encoding the whole text. -/
theorem kept_faithful {enc : Text → List ℕ} (pending : Text) (cells : List Cell) (h : Faithful enc cells) :
    kept enc pending cells = enc (pending ++ textOf cells) := by
  induction pending, cells using kept.induct with
  | case1 pending => simp [kept, textOf]
  | case2 pending u bytes rest ih =>
    rw [kept, ih h.tail]
    exact (h.whole u bytes List.mem_cons_self pending (textOf rest)).symm
  | case3 pending u v bytes rest ih =>
    rw [kept, if_pos rfl, ih h.tail.tail]
    exact (h.pair u v bytes List.mem_cons_self (List.mem_cons_of_mem _ List.mem_cons_self) pending
      (textOf rest)).symm
  | case4 pending u bytes v bytes' rest hne ih =>
    rw [kept, if_neg hne, ih h.tail, List.append_assoc]
    rfl
  | case5 pending u origin rest hwhole hpair ih =>
    rw [kept, ih h.tail, List.append_assoc]
    · rfl
    · exact hwhole
    · exact hpair

end Provenance

section Replacing
variable {α : Type} (key : α → UInt16)

theorem prepend_map {β : Type} (f : α → β) (x : α) (segments : List (List α)) :
    (prepend x segments).map (List.map f) = prepend (f x) (segments.map (List.map f)) := by
  cases segments <;> rfl

theorem split_map (needle : Text) (skip : ℕ) (xs : List α) :
    (split key needle skip xs).map (List.map key) = split id needle skip (xs.map key) := by
  induction xs generalizing skip with
  | nil => cases skip <;> rfl
  | cons x rest ih =>
    cases skip with
    | zero =>
      rw [List.map_cons, split, split, List.map_id, List.map_cons]
      split_ifs
      · rw [List.map_cons, ih]
        rfl
      · rw [prepend_map, ih]
    | succ skip => exact ih skip

theorem intercalate_map {β : Type} (f : α → β) (sep : List α) (segments : List (List α)) :
    (sep.intercalate segments).map f = (sep.map f).intercalate (segments.map (List.map f)) := by
  induction segments with
  | nil => rfl
  | cons s segments ih =>
    cases segments with
    | nil => simp
    | cons s' segments => simp [List.intercalate_cons_cons, ih]

/-- What is replaced depends on the units alone. -/
theorem replaceAll_map (needle : Text) (other xs : List α) :
    (replaceAll key needle other xs).map key = replaceAll id needle (other.map key) (xs.map key) := by
  rw [replaceAll, intercalate_map, split_map, replaceAll]

theorem mem_prepend {x y : α} {segments : List (List α)} {s : List α} (h : s ∈ prepend x segments)
    (hy : y ∈ s) :
    y = x ∨ ∃ s ∈ segments, y ∈ s := by
  cases segments with
  | nil =>
    rw [List.mem_singleton.mp h] at hy
    exact .inl (List.mem_singleton.mp hy)
  | cons t segments =>
    rcases List.mem_cons.mp h with rfl | h
    · rcases List.mem_cons.mp hy with rfl | hy
      · exact .inl rfl
      · exact .inr ⟨t, List.mem_cons_self, hy⟩
    · exact .inr ⟨s, List.mem_cons_of_mem _ h, hy⟩

theorem mem_split {needle : Text} {skip : ℕ} {xs s : List α} (h : s ∈ split key needle skip xs)
    {y : α} (hy : y ∈ s) : y ∈ xs := by
  induction xs generalizing skip s with
  | nil =>
    have hs : s = [] := by cases skip <;> simpa [split] using h
    rw [hs] at hy
    cases hy
  | cons x rest ih =>
    cases skip with
    | zero =>
      rw [split] at h
      split_ifs at h
      · rcases List.mem_cons.mp h with rfl | h
        · cases hy
        · exact List.mem_cons_of_mem _ (ih h hy)
      · rcases mem_prepend h hy with rfl | ⟨s', hs', hy'⟩
        · exact List.mem_cons_self
        · exact List.mem_cons_of_mem _ (ih hs' hy')
    | succ skip => exact List.mem_cons_of_mem _ (ih h hy)

theorem mem_intercalate {sep : List α} {segments : List (List α)} {y : α} (h : y ∈ sep.intercalate segments) :
    y ∈ sep ∨ ∃ s ∈ segments, y ∈ s := by
  induction segments with
  | nil => cases h
  | cons s segments ih =>
    cases segments with
    | nil => exact .inr ⟨s, List.mem_cons_self, by simpa using h⟩
    | cons s' segments =>
      rw [List.intercalate_cons_cons, List.mem_append, List.mem_append] at h
      rcases h with (h | h) | h
      · exact .inr ⟨s, List.mem_cons_self, h⟩
      · exact .inl h
      · rcases ih h with h | ⟨t, ht, hy⟩
        · exact .inl h
        · exact .inr ⟨t, List.mem_cons_of_mem _ ht, hy⟩

theorem mem_replaceAll {needle : Text} {other xs : List α} {y : α} (h : y ∈ replaceAll key needle other xs) :
    y ∈ other ∨ y ∈ xs := by
  rcases mem_intercalate h with h | ⟨s, hs, hy⟩
  · exact .inl h
  · exact .inr (mem_split key hs hy)

theorem split_skipped (needle : Text) (xs : List α) : split key needle xs.length xs = [[]] := by
  induction xs with
  | nil => rfl
  | cons x rest ih => exact ih

/-- A text that is replaced as a whole. -/
theorem replaceAll_whole {t : Text} (ht : t ≠ []) (other xs : List α) (hxs : xs.map key = t) :
    replaceAll key t other xs = other := by
  cases xs with
  | nil => exact absurd hxs.symm ht
  | cons x rest =>
    have hlength : t.length - 1 = rest.length := by rw [← hxs]; simp
    rw [replaceAll, split, if_pos (by rw [hxs]), hlength, split_skipped]
    simp

theorem count_skipped (needle xs : Text) : countOccurrences needle xs.length xs = 0 := by
  induction xs with
  | nil => rfl
  | cons x rest ih => exact ih

theorem count_whole {t : Text} (ht : t ≠ []) : countOccurrences t 0 t = 1 := by
  cases t with
  | nil => exact absurd rfl ht
  | cons u rest =>
    rw [countOccurrences, if_pos (List.prefix_refl _)]
    exact congrArg (· + 1) (count_skipped _ rest)

/-- The replacements on the cells. -/
def patchedCells (lineEnding : LineEnding) (rs : List Replacement) (cells : List Cell) : List Cell :=
  rs.foldl (fun cells r => replaceAll Cell.unit (normalizeReplacementLineEndings r.oldText lineEnding)
    (insertedCells (normalizeReplacementLineEndings r.newText lineEnding)) cells) cells

theorem textOf_inserted (t : Text) : textOf (insertedCells t) = t := by
  rw [textOf, insertedCells, List.map_map]
  exact List.map_id t

/-- The loop over the texts is the loop over the cells. -/
theorem applyReplacements_cells {lineEnding : LineEnding} {rs : List Replacement}
    {cells : List Cell} {applied n : ℕ} {patched : Text}
    (h : applyReplacements lineEnding rs (textOf cells) applied = .ok (patched, n)) :
    patched = textOf (patchedCells lineEnding rs cells) := by
  induction rs generalizing cells applied with
  | nil => exact (Prod.mk.inj (Except.ok.inj h)).1.symm
  | cons r rs ih =>
    rw [applyReplacements] at h
    split_ifs at h
    have hstep := replaceAll_map Cell.unit (normalizeReplacementLineEndings r.oldText lineEnding)
      (insertedCells (normalizeReplacementLineEndings r.newText lineEnding)) cells
    have hinserted :
        (insertedCells (normalizeReplacementLineEndings r.newText lineEnding)).map Cell.unit = _ :=
      textOf_inserted (normalizeReplacementLineEndings r.newText lineEnding)
    rw [hinserted] at hstep
    exact ih (hstep ▸ h)

theorem mem_patchedCells {lineEnding : LineEnding} {rs : List Replacement} {cells : List Cell} {c : Cell}
    (h : c ∈ patchedCells lineEnding rs cells) : c ∈ cells ∨ c.origin = .inserted := by
  induction rs generalizing cells with
  | nil => exact .inl h
  | cons r rs ih =>
    rcases ih h with h | h
    · rcases mem_replaceAll Cell.unit h with h | h
      · obtain ⟨u, -, rfl⟩ := List.mem_map.mp h
        exact .inr rfl
      · exact .inl h
    · exact .inr h

theorem Faithful.patched {enc : Text → List ℕ} {cells : List Cell} (h : Faithful enc cells)
    (lineEnding : LineEnding) (rs : List Replacement) : Faithful enc (patchedCells lineEnding rs cells) where
  whole u bytes hu := by
    rcases mem_patchedCells hu with hu | hu
    · exact h.whole u bytes hu
    · cases hu
  pair u v bytes hu hv := by
    rcases mem_patchedCells hu with hu | hu
    · rcases mem_patchedCells hv with hv | hv
      · exact h.pair u v bytes hu hv
      · cases hv
    · cases hu

end Replacing

section LineEndings

theorem normalized_plain {t : Text} (hcrlf : countCrlf t = 0) (hcr : 13 ∉ removeCrlf t) :
    normalized t = t := by
  induction t using normalized.induct with
  | case1 rest ih => simp [countCrlf] at hcrlf
  | case2 rest hne ih =>
    rw [removeCrlf] at hcr
    · exact absurd List.mem_cons_self hcr
    · simpa using hne
  | case3 u rest h1 h2 ih =>
    rw [countCrlf] at hcrlf
    · rw [removeCrlf, List.mem_cons, not_or] at hcr
      · rw [normalized, ih hcrlf hcr.2]
        · exact h1
        · exact h2
      · exact h1
    · exact h1
  | case4 => rfl

theorem normalized_crlf {t : Text} (hlf : 10 ∉ removeCrlf t) (hcr : 13 ∉ removeCrlf t) :
    ((normalized t).flatMap fun u => if u = 10 then [13, 10] else [u]) = t := by
  induction t using normalized.induct with
  | case1 rest ih =>
    rw [removeCrlf] at hlf hcr
    rw [normalized, List.flatMap_cons, ih hlf hcr]
    rfl
  | case2 rest hne ih =>
    rw [removeCrlf] at hcr
    · exact absurd List.mem_cons_self hcr
    · simpa using hne
  | case3 u rest h1 h2 ih =>
    rw [removeCrlf, List.mem_cons, not_or] at hlf hcr
    · rw [normalized, List.flatMap_cons, ih hlf.2 hcr.2, if_neg (Ne.symm hlf.1)]
      · rfl
      · exact h1
      · exact h2
    · exact h1
    · exact h1
  | case4 => rfl

theorem normalized_cr {t : Text} (hcrlf : countCrlf t = 0) (hlf : 10 ∉ removeCrlf t) :
    ((normalized t).map fun u => if u = 10 then 13 else u) = t := by
  induction t using normalized.induct with
  | case1 rest ih => simp [countCrlf] at hcrlf
  | case2 rest hne ih =>
    rw [countCrlf] at hcrlf
    · rw [removeCrlf, List.mem_cons, not_or] at hlf
      · rw [normalized, List.map_cons, ih hcrlf hlf.2]
        · rfl
        · exact hne
      · simpa using hne
    · simpa using hne
  | case3 u rest h1 h2 ih =>
    rw [countCrlf] at hcrlf
    · rw [removeCrlf, List.mem_cons, not_or] at hlf
      · rw [normalized, List.map_cons, ih hcrlf hlf.2, if_neg (Ne.symm hlf.1)]
        · exact h1
        · exact h2
      · exact h1
    · exact h1
  | case4 => rfl

/-- The text of a file already has the line endings that are detected in it. -/
theorem normalize_detected (t : Text) : normalizeReplacementLineEndings t (detectLineEnding t) = t := by
  have hlf : ∀ {u}, ¬ 0 < (removeCrlf t).count u → u ∉ removeCrlf t := fun h =>
    List.count_eq_zero.mp (by omega)
  unfold detectLineEnding
  by_cases h1 : 0 < countCrlf t <;> by_cases h2 : 0 < (removeCrlf t).count 10 <;>
    by_cases h3 : 0 < (removeCrlf t).count 13 <;> simp only [h1, h2, h3, if_true, if_false]
  all_goals try rfl
  · exact normalized_crlf (hlf h2) (hlf h3)
  · exact normalized_plain (by omega) (hlf h3)
  · exact normalized_cr (by omega) (hlf h2)

theorem normalize_letter (lineEnding : LineEnding) :
    normalizeReplacementLineEndings [120] lineEnding = [120] := by
  cases lineEnding <;> rfl

end LineEndings

end AccessStack.TextPatch
