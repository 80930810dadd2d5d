import AccessStack.Accounts.Routing

/-!
# A workspace id that nobody uses

The candidates end in a separator and either eight hexadecimal digits or a
number of at most four digits, so all of them differ: one of 4096 is free
where fewer are taken. Each has the form of a workspace id.
-/

set_option autoImplicit false

namespace AccessStack.Accounts
open AccessStack.Text

section Characters

def isIdChar (c : Char) : Bool := c.isAlphanum || ['.', '_', '-'].contains c

theorem isIdChar_range {c : Char} (h : isIdChar c = true) : 0x21 ≤ c.toNat ∧ c.toNat ≤ 0x7e := by
  simp only [isIdChar, Char.isAlphanum, Char.isAlpha, Char.isUpper, Char.isLower, Char.isDigit,
    Bool.or_eq_true,
    Bool.and_eq_true, decide_eq_true_eq, List.contains_eq_mem, List.mem_cons, List.not_mem_nil,
      or_false, ge_iff_le, UInt32.le_iff_toNat_le] at h
  have hval : c.val.toNat = c.toNat := rfl
  rw [hval] at h
  rcases h with ((⟨hlow, hhigh⟩ | ⟨hlow, hhigh⟩) | ⟨hlow, hhigh⟩) | rfl | rfl | rfl
  · exact ⟨le_trans (by decide) hlow, le_trans hhigh (by decide)⟩
  · exact ⟨le_trans (by decide) hlow, le_trans hhigh (by decide)⟩
  · exact ⟨le_trans (by decide) hlow, le_trans hhigh (by decide)⟩
  · decide
  · decide
  · decide

theorem isIdChar_hex {c : Char} (h : isHexLower c = true) : isIdChar c = true := by
  rw [isHexLower, Bool.or_eq_true, Bool.and_eq_true, decide_eq_true_eq, decide_eq_true_eq] at h
  rw [isIdChar, Char.isAlphanum, Char.isAlpha, Char.isLower]
  rcases h with hdigit | ⟨hlow, hhigh⟩
  · rw [hdigit, Bool.or_true, Bool.true_or]
  · have hlast : c.val ≤ 'z'.val := UInt32.le_trans (show c.val ≤ 'f'.val from hhigh) (by decide)
    have hlower : (decide (c.val ≥ 'a'.val) && decide (c.val ≤ 'z'.val)) = true := by
      rw [Bool.and_eq_true, decide_eq_true_eq, decide_eq_true_eq]
      exact ⟨hlow, hlast⟩
    rw [hlower, Bool.or_true, Bool.true_or, Bool.true_or]

theorem not_isSpace_of_isIdChar {c : Char} (h : isIdChar c = true) : isSpace c = false := by
  obtain ⟨hlow, hhigh⟩ := isIdChar_range h
  rw [isSpace, Bool.or_eq_false_iff]
  constructor
  · rw [List.contains_eq_mem, decide_eq_false_iff_not]
    intro hmem
    simp only [List.mem_cons, List.not_mem_nil, or_false] at hmem
    omega
  · rw [Bool.and_eq_false_iff]
    exact .inl (decide_eq_false (by omega))

theorem isWorkspaceId_iff (value : String) :
    isWorkspaceId value = true ↔ ∃ c cs, value.toList = c::cs ∧ c.isAlphanum = true ∧ cs.length ≤ 199 ∧
      ∀ d ∈ cs, isIdChar d = true := by
  unfold isWorkspaceId bounded isIdChar
  cases value.toList with
  | nil => simp
  | cons c cs => simp [and_assoc]

theorem trim_workspaceId {value : String} (h : isWorkspaceId value = true) : trim value = value := by
  obtain ⟨c, cs, hvalue, hc, -, hcs⟩ := (isWorkspaceId_iff value).mp h
  apply trim_eq_self
  intro d hd
  rw [hvalue] at hd
  rcases List.mem_cons.mp hd with rfl | hrest
  · exact not_isSpace_of_isIdChar (by rw [isIdChar, hc, Bool.true_or])
  · exact not_isSpace_of_isIdChar (hcs d hrest)

theorem workspaceId_short {value : String} (h : isWorkspaceId value = true) : utf16Length value ≤ 200 := by
  obtain ⟨c, cs, hvalue, hc, hshort, hcs⟩ := (isWorkspaceId_iff value).mp h
  have hunit : ∀ d ∈ value.toList, (if d.toNat < 0x10000 then 1 else 2) ≤ 1 := by
    intro d hd
    have hid : isIdChar d = true := by
      rw [hvalue] at hd
      rcases List.mem_cons.mp hd with rfl | hrest
      · rw [isIdChar, hc, Bool.true_or]
      · exact hcs d hrest
    rw [if_pos ((isIdChar_range hid).2.trans_lt (by decide))]
  unfold utf16Length
  refine (List.sum_le_card_nsmul _ 1 fun n hn => ?_).trans ?_
  · obtain ⟨d, hd, rfl⟩ := List.mem_map.mp hn
    exact hunit d hd
  · rw [List.length_map, hvalue, List.length_cons, smul_eq_mul]
    omega

end Characters

section Suffixes

/-- The digits of `toString(16)`. -/
theorem toDigits_hex (n : ℕ) : ∀ c ∈ Nat.toDigits 16 n, isHexLower c = true := by
  induction n using Nat.strongRecOn with
  | ind n ih =>
    rw [Nat.toDigits_eq_if (by decide)]
    split_ifs with hsmall
    · intro c hc
      rw [List.mem_singleton.mp hc]
      exact digitChar_hex n hsmall
    · intro c hc
      rcases List.mem_append.mp hc with hfront | hlast
      · exact ih (n / 16) (Nat.div_lt_self (by omega) (by decide)) c hfront
      · rw [List.mem_singleton.mp hlast]
        exact digitChar_hex _ (Nat.mod_lt n (by decide))

theorem hash_bound (units : List ℕ) (start : ℕ) (h : start < 2^32) :
    units.foldl (fun hash unit => ((hash ^^^ unit) * 0x01000193) % 2^32) start < 2^32 := by
  induction units generalizing start with
  | nil => exact h
  | cons unit units ih => exact ih _ (Nat.mod_lt _ (by decide))

theorem hash_form (value : String) :
    (stableWorkspaceKeyHash value).toList.length = 8 ∧
      ∀ c ∈ (stableWorkspaceKeyHash value).toList, isHexLower c = true := by
  unfold stableWorkspaceKeyHash
  have hbound := hash_bound (utf16Units value) 0x811c9dc5 (by decide)
  generalize (utf16Units value).foldl (fun hash unit => ((hash ^^^ unit) * 0x01000193) % 2^32)
    0x811c9dc5 = hash at hbound
  dsimp only
  rw [String.toList_ofList]
  have hshort : (Nat.toDigits 16 hash).length ≤ 8 :=
    (Nat.length_toDigits_le_iff (by decide) (by decide)).mpr (hbound.trans_le (by decide))
  constructor
  · show (List.replicate _ _ ++ _).length = 8
    rw [List.length_append, List.length_replicate]
    omega
  · intro c hc
    rcases List.mem_append.mp hc with hpad | hdigit
    · rw [List.eq_of_mem_replicate hpad]
      decide
    · exact toDigits_hex hash c hdigit

/-- What comes after the last separator of a suffix. -/
def suffixTail (hash : String) (attempt : ℕ) : List Char :=
  if attempt = 0 then hash.toList else Nat.toDigits 10 (attempt + 1)

theorem isHexLower_ne_dash {c : Char} (h : isHexLower c = true) : c ≠ '-' := by
  rintro rfl
  exact absurd h (by decide)

theorem suffix_tail (scope : RuntimeScope) (hash : String) (attempt : ℕ) :
    ∃ start, (workspaceSuffix scope hash attempt).toList = start ++ '-' :: suffixTail hash attempt := by
  unfold workspaceSuffix suffixTail
  split_ifs
  · refine ⟨"-".toList ++ scope.name.toList, ?_⟩
    simp
  · refine ⟨"-".toList ++ scope.name.toList ++ "-".toList ++ hash.toList, ?_⟩
    simp

theorem suffixTail_plain {hash : String} (h : ∀ c ∈ hash.toList, isHexLower c = true) (attempt : ℕ) :
    '-' ∉ suffixTail hash attempt := by
  unfold suffixTail
  intro hmem
  split_ifs at hmem
  · exact isHexLower_ne_dash (h _ hmem) rfl
  · exact absurd (Nat.isDigit_of_mem_toDigits (by decide) (by decide) hmem) (by decide)

theorem suffixTail_injective {hash : String} (h : hash.toList.length = 8) {a b : ℕ} (ha : a < 4096)
    (hb : b < 4096) (heq : suffixTail hash a = suffixTail hash b) : a = b := by
  have hshort : ∀ n < 4096, (Nat.toDigits 10 (n + 1)).length ≤ 4 := fun n hn =>
    (Nat.length_toDigits_le_iff (by decide) (by decide)).mpr (by omega)
  unfold suffixTail at heq
  split_ifs at heq with hazero hbzero hbzero
  · rw [hazero, hbzero]
  · have hlength := congrArg List.length heq
    have hfour := hshort b hb
    omega
  · have hlength := congrArg List.length heq
    have hfour := hshort a ha
    omega
  · have hsame := congrArg (Nat.ofDigitChars 10 · 0) heq
    simp only [Nat.ofDigitChars_ten_toDigits] at hsame
    omega

end Suffixes

section Candidates

variable {requested hash : String} {scope : RuntimeScope} {attempt : ℕ}

theorem candidate_injective (hlength : hash.toList.length = 8) (hhex : ∀ c ∈ hash.toList, isHexLower c = true)
    {a b : ℕ} (ha : a < 4096) (hb : b < 4096)
    (heq : workspaceCandidate requested scope hash a = workspaceCandidate requested scope hash b) :
    a = b := by
  have hends : ∀ n, ∃ start, (workspaceCandidate requested scope hash n).toList = start ++
      '-' :: suffixTail hash n := by
    intro n
    obtain ⟨start, hstart⟩ := suffix_tail scope hash n
    unfold workspaceCandidate
    dsimp only
    rw [String.toList_append, hstart, ← List.append_assoc]
    exact ⟨_, rfl⟩
  obtain ⟨start, hstart⟩ := hends a
  obtain ⟨start', hstart'⟩ := hends b
  rw [heq, hstart'] at hstart
  have hreverse := congrArg List.reverse hstart
  simp only [List.reverse_append, List.reverse_cons, List.append_assoc, List.singleton_append] at hreverse
  have htail := (separated (fun hmem => suffixTail_plain hhex b (List.mem_reverse.mp hmem))
    (fun hmem => suffixTail_plain hhex a (List.mem_reverse.mp hmem)) hreverse).1
  exact (suffixTail_injective hlength hb ha (List.reverse_injective htail)).symm

theorem suffix_form (hlength : hash.toList.length = 8) (hhex : ∀ c ∈ hash.toList, isHexLower c = true)
    (hattempt : attempt < 4096) :
    (workspaceSuffix scope hash attempt).toList.length ≤ 21 ∧
      ∀ c ∈ (workspaceSuffix scope hash attempt).toList, isIdChar c = true := by
  have hshort : scope.name.toList.length ≤ 6 := by cases scope <;> decide
  have hname : ∀ c ∈ scope.name.toList, isIdChar c = true := List.all_eq_true.mp (by cases scope <;> rfl)
  have hdigits : (Nat.toDigits 10 (attempt + 1)).length ≤ 4 :=
    (Nat.length_toDigits_le_iff (by decide) (by decide)).mpr (by omega)
  have hhash : ∀ c ∈ hash.toList, isIdChar c = true := fun c hc => isIdChar_hex (hhex c hc)
  have hnumber : ∀ c ∈ Nat.toDigits 10 (attempt + 1), isIdChar c = true := by
    intro c hc
    have hdigit : c.isDigit = true := Nat.isDigit_of_mem_toDigits (by decide) (by decide) hc
    rw [isIdChar, Char.isAlphanum, hdigit, Bool.or_true, Bool.true_or]
  have hdash : ∀ c ∈ "-".toList, isIdChar c = true := List.all_eq_true.mp rfl
  have hone : "-".toList.length = 1 := rfl
  unfold workspaceSuffix
  split_ifs
  · simp only [String.toList_append, List.length_append, hlength, List.mem_append, or_imp, forall_and]
    exact ⟨by omega, ⟨⟨hdash, hname⟩, hdash⟩, hhash⟩
  · simp only [String.toList_append, List.length_append, hlength, List.mem_append, or_imp,
      forall_and, Nat.toString_eq_repr, Nat.toList_repr]
    exact ⟨by omega, ⟨⟨⟨⟨hdash, hname⟩, hdash⟩, hhash⟩, hdash⟩, hnumber⟩

theorem candidate_valid (hrequested : isWorkspaceId requested = true) (hlength : hash.toList.length = 8)
    (hhex : ∀ c ∈ hash.toList, isHexLower c = true) (hattempt : attempt < 4096) :
    isWorkspaceId (workspaceCandidate requested scope hash attempt) = true := by
  obtain ⟨c, cs, hvalue, hc, hshort, hcs⟩ := (isWorkspaceId_iff requested).mp hrequested
  obtain ⟨hsuffix, hchars⟩ : (workspaceSuffix scope hash attempt).toList.length ≤ 21 ∧ _ :=
    suffix_form hlength hhex hattempt
  unfold workspaceCandidate
  dsimp only
  rw [← String.length_toList]
  generalize (workspaceSuffix scope hash attempt) = suffix at hsuffix hchars
  have hk : max 1 (200 - suffix.toList.length) = 199 - suffix.toList.length + 1 := by omega
  rw [hvalue, hk, List.take_succ_cons]
  have hnotSep : ['.', '_', '-'].contains c = false := by
    by_contra hsep
    rw [Bool.not_eq_false, List.contains_eq_mem, decide_eq_true_eq] at hsep
    simp only [List.mem_cons, List.not_mem_nil, or_false] at hsep
    rcases hsep with rfl | rfl | rfl <;> exact absurd hc (by decide)
  have hprefix := List.rdropWhile_prefix (fun c => ['.', '_', '-'].contains c)
    (c :: cs.take (199 - suffix.toList.length))
  generalize hstart : List.rdropWhile (fun c => ['.', '_', '-'].contains c)
    (c :: cs.take (199 - suffix.toList.length)) = start at hprefix
  cases start with
  | nil =>
    rw [List.rdropWhile_eq_nil_iff] at hstart
    rw [hstart c List.mem_cons_self] at hnotSep
    exact absurd hnotSep nofun
  | cons d rest =>
    obtain ⟨rfl, hrest⟩ := List.cons_prefix_cons.mp hprefix
    rw [if_neg (List.cons_ne_nil _ _)]
    refine (isWorkspaceId_iff _).mpr ⟨d, rest ++ suffix.toList, ?_, hc, ?_, ?_⟩
    · rw [String.toList_append, String.toList_ofList, List.cons_append]
    · have hlen := hrest.length_le
      rw [List.length_take] at hlen
      rw [List.length_append]
      omega
    · intro e he
      rcases List.mem_append.mp he with hfront | hback
      · exact hcs e (List.mem_of_mem_take (hrest.subset hfront))
      · exact hchars e hback

/-- Fewer than 4096 ids do not take all the candidates. -/
theorem candidate_free (hlength : hash.toList.length = 8) (hhex : ∀ c ∈ hash.toList, isHexLower c = true)
    (requested : String) (scope : RuntimeScope) {reserved : List String}
    (hfew : reserved.toFinset.card < 4096) :
    ∃ attempt < 4096, workspaceCandidate requested scope hash attempt ∉ reserved := by
  have hinjective : Set.InjOn (workspaceCandidate requested scope hash) (Finset.range 4096) := by
    intro a ha b hb heq
    exact candidate_injective hlength hhex (Finset.mem_range.mp ha) (Finset.mem_range.mp hb) heq
  have hcard : reserved.toFinset.card <
      ((Finset.range 4096).image (workspaceCandidate requested scope hash)).card := by
    rw [Finset.card_image_of_injOn hinjective, Finset.card_range]
    exact hfew
  obtain ⟨candidate, hcandidate, hfree⟩ := Finset.exists_mem_notMem_of_card_lt_card hcard
  obtain ⟨attempt, hattempt, rfl⟩ := Finset.mem_image.mp hcandidate
  exact ⟨attempt, Finset.mem_range.mp hattempt, fun hmem => hfree (List.mem_toFinset.mpr hmem)⟩

/-- A fresh id of the right form is found, the requested one if it is free. -/
theorem workspace_id_found (requestedWorkspaceId stableKey : String) (reserved : List String)
    (scope : RuntimeScope) (hrequested : isWorkspaceId requestedWorkspaceId = true)
    (hfew : reserved.toFinset.card < 4096) :
    ∃ workspaceId,
      selectAvailableRuntimeWorkspaceId requestedWorkspaceId stableKey reserved scope = .ok workspaceId ∧
        workspaceId ∉ reserved ∧ isWorkspaceId workspaceId = true ∧ utf16Length workspaceId ≤ 200 ∧
        (requestedWorkspaceId ∉ reserved → workspaceId = requestedWorkspaceId) := by
  obtain ⟨hlength, hhex⟩ := hash_form stableKey
  unfold selectAvailableRuntimeWorkspaceId
  dsimp only
  rw [trim_workspaceId hrequested, hrequested]
  rcases Decidable.em (requestedWorkspaceId ∈ reserved) with htaken | hfree
  · obtain ⟨attempt, hattempt, hfree⟩ := candidate_free hlength hhex requestedWorkspaceId scope hfew
    have hmem : workspaceCandidate requestedWorkspaceId scope (stableWorkspaceKeyHash stableKey) attempt ∈
        (List.range 4096).map
            (workspaceCandidate requestedWorkspaceId scope (stableWorkspaceKeyHash stableKey)) :=
      List.mem_map_of_mem (List.mem_range.mpr hattempt)
    cases hfound : ((List.range 4096).map
        (workspaceCandidate requestedWorkspaceId scope (stableWorkspaceKeyHash stableKey))).find?
          (· ∉ reserved) with
    | none => exact absurd (decide_eq_true hfree) (List.find?_eq_none.mp hfound _ hmem)
    | some candidate =>
      obtain ⟨n, hn, rfl⟩ := List.mem_map.mp (List.mem_of_find?_eq_some hfound)
      have hvalid :
          isWorkspaceId
          (workspaceCandidate requestedWorkspaceId scope (stableWorkspaceKeyHash stableKey) n) = true :=
        candidate_valid hrequested hlength hhex (List.mem_range.mp hn)
      have hchosen : workspaceCandidate requestedWorkspaceId scope
          (stableWorkspaceKeyHash stableKey) n ∉ reserved := by
        simpa using List.find?_some hfound
      rw [if_neg (by decide), if_neg (not_not_intro htaken)]
      exact ⟨_, rfl, hchosen, hvalid, workspaceId_short hvalid, fun hnot => absurd htaken hnot⟩
  · rw [if_neg (by decide), if_pos hfree]
    exact ⟨_, rfl, hfree, hrequested, workspaceId_short hrequested, fun _ => rfl⟩

theorem workspace_id_found_sample :
    ∃ workspaceId, selectAvailableRuntimeWorkspaceId "repo" "key" ["repo"] .localDevice = .ok workspaceId ∧
      workspaceId ∉ ["repo"] ∧ isWorkspaceId workspaceId = true ∧ utf16Length workspaceId ≤ 200 ∧
      ("repo" ∉ ["repo"] → workspaceId = "repo") :=
  workspace_id_found "repo" "key" ["repo"] .localDevice rfl (by decide +kernel)

end Candidates

end AccessStack.Accounts
