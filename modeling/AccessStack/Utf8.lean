import AccessStack.Units

/-!
# Decoding UTF-8

The decoder takes one byte after the other. What it puts out are pieces: a
character with its bytes, or bytes that are no character and are read as the
replacement character. A text is the list of its characters, of which none is
a half of a pair.
-/

set_option autoImplicit false

namespace AccessStack.Utf8
open AccessStack.Units

section Decoder

/-- Bytes that have been read, and the character in them. -/
structure Piece where
  bytes : List ℕ
  scalar : Option ℕ
  deriving DecidableEq

def replacement : ℕ := 0xfffd

def Piece.char (p : Piece) : ℕ := p.scalar.getD replacement

/-- The bytes of a character that is not complete, its value so far, and what the next byte may be. -/
structure State where
  bytes : List ℕ
  value : ℕ
  needed : ℕ
  lower : ℕ
  upper : ℕ
  deriving DecidableEq

def start : State := ⟨[], 0, 0, 0x80, 0xbf⟩

/-- A byte where no character has begun. -/
def first (b : ℕ) : List Piece × State :=
  if b < 0x80 then ([⟨[b], some b⟩], start)
  else if 0xc2 ≤ b ∧ b ≤ 0xdf then ([], ⟨[b], b - 0xc0, 1, 0x80, 0xbf⟩)
  else if 0xe0 ≤ b ∧ b ≤ 0xef then
    ([], ⟨[b], b - 0xe0, 2, if b = 0xe0 then 0xa0 else 0x80, if b = 0xed then 0x9f else 0xbf⟩)
  else if 0xf0 ≤ b ∧ b ≤ 0xf4 then
    ([], ⟨[b], b - 0xf0, 3, if b = 0xf0 then 0x90 else 0x80, if b = 0xf4 then 0x8f else 0xbf⟩)
  else ([⟨[b], none⟩], start)

def next (s : State) (b : ℕ) : List Piece × State :=
  if s.needed = 0 then first b
  else if s.lower ≤ b ∧ b ≤ s.upper then
    if s.needed = 1 then ([⟨s.bytes ++ [b], some (s.value * 64 + b % 64)⟩], start)
    else ([], ⟨s.bytes ++ [b], s.value * 64 + b % 64, s.needed - 1, 0x80, 0xbf⟩)
  else (⟨s.bytes, none⟩ :: (first b).1, (first b).2)

def run : State → List ℕ → List Piece × State
  | s, [] => ([], s)
  | s, b::bs => ((next s b).1 ++ (run (next s b).2 bs).1, (run (next s b).2 bs).2)

def finish (s : State) : List Piece := if s.needed = 0 then [] else [⟨s.bytes, none⟩]

def pieces (bs : List ℕ) : List Piece := (run start bs).1 ++ finish (run start bs).2

/-- The text of a list of bytes. -/
def decode (bs : List ℕ) : List ℕ := (pieces bs).map Piece.char

theorem run_append (s : State) (bs cs : List ℕ) :
    run s (bs ++ cs) = ((run s bs).1 ++ (run (run s bs).2 cs).1, (run (run s bs).2 cs).2) := by
  induction bs generalizing s with
  | nil => simp [run]
  | cons b bs ih => simp [run, ih]

end Decoder

section Characters

/-- A character: a code point that is no half of a pair. -/
def IsScalar (c : ℕ) : Prop := c < 0xd800 ∨ 0xe000 ≤ c ∧ c < 0x110000

instance (c : ℕ) : Decidable (IsScalar c) := inferInstanceAs (Decidable (_ ∨ _))

def encodeText (cs : List ℕ) : List ℕ := cs.flatMap scalarBytes

/-- What may have been read of a character. -/
inductive Begun : State → Prop where
  | nothing : Begun start
  | two (a : ℕ) : 0xc2 ≤ a → a ≤ 0xdf → Begun ⟨[a], a - 0xc0, 1, 0x80, 0xbf⟩
  | three (a : ℕ) : 0xe0 ≤ a → a ≤ 0xef →
      Begun ⟨[a], a - 0xe0, 2, if a = 0xe0 then 0xa0 else 0x80, if a = 0xed then 0x9f else 0xbf⟩
  | threeTwo (a b : ℕ) : 0xe0 ≤ a → a ≤ 0xef → 0x80 ≤ b → b ≤ 0xbf → (a = 0xe0 → 0xa0 ≤ b) →
    (a = 0xed → b ≤ 0x9f) →
      Begun ⟨[a, b], (a - 0xe0) * 64 + b % 64, 1, 0x80, 0xbf⟩
  | four (a : ℕ) : 0xf0 ≤ a → a ≤ 0xf4 →
      Begun ⟨[a], a - 0xf0, 3, if a = 0xf0 then 0x90 else 0x80, if a = 0xf4 then 0x8f else 0xbf⟩
  | fourTwo (a b : ℕ) : 0xf0 ≤ a → a ≤ 0xf4 → 0x80 ≤ b → b ≤ 0xbf → (a = 0xf0 → 0x90 ≤ b) →
    (a = 0xf4 → b ≤ 0x8f) →
      Begun ⟨[a, b], (a - 0xf0) * 64 + b % 64, 2, 0x80, 0xbf⟩
  | fourThree (a b c : ℕ) : 0xf0 ≤ a → a ≤ 0xf4 → 0x80 ≤ b → b ≤ 0xbf → (a = 0xf0 → 0x90 ≤ b) →
      (a = 0xf4 → b ≤ 0x8f) → 0x80 ≤ c → c ≤ 0xbf →
      Begun ⟨[a, b, c], ((a - 0xf0) * 64 + b % 64) * 64 + c % 64, 1, 0x80, 0xbf⟩

/-- A piece with a character has exactly its bytes. -/
def Sound (p : Piece) : Prop := ∀ c, p.scalar = some c → IsScalar c ∧ p.bytes = scalarBytes c

theorem sound_broken (bytes : List ℕ) : Sound ⟨bytes, none⟩ := by
  intro c hc
  cases hc

theorem begun_first (b : ℕ) : Begun (first b).2 ∧ ∀ p ∈ (first b).1, Sound p := by
  by_cases h1 : b < 0x80
  · rw [first, if_pos h1]
    refine ⟨.nothing, List.forall_mem_singleton.mpr ?_⟩
    intro c hc
    cases hc
    exact ⟨.inl (by omega), by rw [scalarBytes, if_pos h1]⟩
  · by_cases h2 : 0xc2 ≤ b ∧ b ≤ 0xdf
    · rw [first, if_neg h1, if_pos h2]
      exact ⟨.two b h2.1 h2.2, by simp⟩
    · by_cases h3 : 0xe0 ≤ b ∧ b ≤ 0xef
      · rw [first, if_neg h1, if_neg h2, if_pos h3]
        exact ⟨.three b h3.1 h3.2, by simp⟩
      · by_cases h4 : 0xf0 ≤ b ∧ b ≤ 0xf4
        · rw [first, if_neg h1, if_neg h2, if_neg h3, if_pos h4]
          exact ⟨.four b h4.1 h4.2, by simp⟩
        · rw [first, if_neg h1, if_neg h2, if_neg h3, if_neg h4]
          exact ⟨.nothing, List.forall_mem_singleton.mpr (sound_broken _)⟩

theorem sound_two {a b : ℕ} (h1 : 0xc2 ≤ a) (h2 : a ≤ 0xdf) (h3 : 0x80 ≤ b) (h4 : b ≤ 0xbf) :
    Sound ⟨[a, b], some ((a - 0xc0) * 64 + b % 64)⟩ := by
  intro c hc
  cases hc
  refine ⟨.inl (by omega), ?_⟩
  rw [scalarBytes, if_neg (by omega), if_pos (by omega)]
  show [a, b] = _
  congr 1
  · omega
  · congr 1
    omega

theorem sound_three {a b c : ℕ} (h1 : 0xe0 ≤ a) (h2 : a ≤ 0xef) (h3 : 0x80 ≤ b) (h4 : b ≤ 0xbf)
    (h5 : a = 0xe0 → 0xa0 ≤ b) (h6 : a = 0xed → b ≤ 0x9f) (h7 : 0x80 ≤ c) (h8 : c ≤ 0xbf) :
    Sound ⟨[a, b, c], some (((a - 0xe0) * 64 + b % 64) * 64 + c % 64)⟩ := by
  intro d hd
  cases hd
  have hlow : 0x800 ≤ ((a - 0xe0) * 64 + b % 64) * 64 + c % 64 := by
    rcases Nat.lt_or_ge a 0xe1 with ha | ha
    · have hb := h5 (by omega)
      omega
    · omega
  have hhalf : ((a - 0xe0) * 64 + b % 64) * 64 + c % 64 < 0xd800 ∨
      0xe000 ≤ ((a - 0xe0) * 64 + b % 64) * 64 + c % 64 := by
    rcases Nat.lt_trichotomy a 0xed with ha | ha | ha
    · omega
    · have hb := h6 ha
      omega
    · omega
  have hhigh : ((a - 0xe0) * 64 + b % 64) * 64 + c % 64 < 0x10000 := by omega
  refine ⟨by unfold IsScalar; omega, ?_⟩
  rw [scalarBytes, if_neg (by omega), if_neg (by omega), if_pos hhigh]
  show [a, b, c] = _
  congr 1
  · omega
  · congr 1
    · omega
    · congr 1
      omega

theorem sound_four {a b c d : ℕ} (h1 : 0xf0 ≤ a) (h2 : a ≤ 0xf4) (h3 : 0x80 ≤ b) (h4 : b ≤ 0xbf)
    (h5 : a = 0xf0 → 0x90 ≤ b) (h6 : a = 0xf4 → b ≤ 0x8f) (h7 : 0x80 ≤ c) (h8 : c ≤ 0xbf) (h9 : 0x80 ≤ d)
    (h10 : d ≤ 0xbf) :
    Sound ⟨[a, b, c, d], some ((((a - 0xf0) * 64 + b % 64) * 64 + c % 64) * 64 + d % 64)⟩ := by
  intro e he
  cases he
  have hlow : 0x10000 ≤ (((a - 0xf0) * 64 + b % 64) * 64 + c % 64) * 64 + d % 64 := by
    rcases Nat.lt_or_ge a 0xf1 with ha | ha
    · have hb := h5 (by omega)
      omega
    · omega
  have hhigh : (((a - 0xf0) * 64 + b % 64) * 64 + c % 64) * 64 + d % 64 < 0x110000 := by
    rcases Nat.lt_or_ge a 0xf4 with ha | ha
    · omega
    · have hb := h6 (by omega)
      omega
  refine ⟨.inr ⟨by omega, hhigh⟩, ?_⟩
  rw [scalarBytes, if_neg (by omega), if_neg (by omega), if_neg (by omega)]
  show [a, b, c, d] = _
  congr 1
  · omega
  · congr 1
    · omega
    · congr 1
      · omega
      · congr 1
        omega

/-- The bytes that have been read of a character and the pieces put out keep their form. -/
theorem begun_next {s : State} (h : Begun s) (b : ℕ) : Begun (next s b).2 ∧ ∀ p ∈ (next s b).1, Sound p := by
  obtain ⟨hfirst, hpieces⟩ := begun_first b
  by_cases hneeded : s.needed = 0
  · rw [next, if_pos hneeded]
    exact ⟨hfirst, hpieces⟩
  · by_cases hrange : s.lower ≤ b ∧ b ≤ s.upper
    · obtain ⟨hlower, hupper⟩ := hrange
      rw [next, if_neg hneeded, if_pos ⟨hlower, hupper⟩]
      cases h with
      | nothing => exact absurd rfl hneeded
      | two a h1 h2 => exact ⟨.nothing, by simpa using sound_two h1 h2 hlower hupper⟩
      | three a h1 h2 =>
        simp only at hlower hupper
        refine ⟨.threeTwo a b h1 h2 ?_ ?_ ?_ ?_, by simp⟩ <;> split_ifs at hlower hupper <;> omega
      | threeTwo a b' h1 h2 h3 h4 h5 h6 =>
        exact ⟨.nothing, by simpa using sound_three h1 h2 h3 h4 h5 h6 hlower hupper⟩
      | four a h1 h2 =>
        simp only at hlower hupper
        refine ⟨.fourTwo a b h1 h2 ?_ ?_ ?_ ?_, by simp⟩ <;> split_ifs at hlower hupper <;> omega
      | fourTwo a b' h1 h2 h3 h4 h5 h6 => exact ⟨.fourThree a b' b h1 h2 h3 h4 h5 h6 hlower hupper, by simp⟩
      | fourThree a b' c h1 h2 h3 h4 h5 h6 h7 h8 =>
        exact ⟨.nothing, by simpa using sound_four h1 h2 h3 h4 h5 h6 h7 h8 hlower hupper⟩
    · rw [next, if_neg hneeded, if_neg hrange]
      refine ⟨hfirst, ?_⟩
      intro p hp
      rcases List.mem_cons.mp hp with rfl | hp
      · exact sound_broken s.bytes
      · exact hpieces p hp

theorem begun_run {s : State} (h : Begun s) (bs : List ℕ) :
    Begun (run s bs).2 ∧ ∀ p ∈ (run s bs).1, Sound p := by
  induction bs generalizing s with
  | nil => exact ⟨h, by simp [run]⟩
  | cons b bs ih =>
    obtain ⟨hnext, hpieces⟩ := begun_next h b
    obtain ⟨hlast, hrest⟩ := ih hnext
    refine ⟨hlast, ?_⟩
    intro p hp
    rcases List.mem_append.mp hp with hp | hp
    · exact hpieces p hp
    · exact hrest p hp

theorem sound_pieces {bs : List ℕ} {p : Piece} (hp : p ∈ pieces bs) : Sound p := by
  obtain ⟨-, hrun⟩ := begun_run .nothing bs
  rcases List.mem_append.mp hp with hp | hp
  · exact hrun p hp
  · unfold finish at hp
    split_ifs at hp
    · simp at hp
    · rw [List.mem_singleton] at hp
      subst hp
      exact sound_broken _

end Characters

section RoundTrips

def whole (c : ℕ) : Piece := ⟨scalarBytes c, some c⟩

theorem first_bytes (b : ℕ) : (first b).1.flatMap Piece.bytes ++ (first b).2.bytes = [b] := by
  unfold first
  split_ifs <;> rfl

theorem next_bytes {s : State} (h : Begun s) (b : ℕ) :
    (next s b).1.flatMap Piece.bytes ++ (next s b).2.bytes = s.bytes ++ [b] := by
  unfold next
  split_ifs with hneeded hrange hlast
  · have hbytes : s.bytes = [] := by
      cases h with
      | nothing => rfl
      | _ => cases hneeded
    rw [hbytes, first_bytes]
    rfl
  · simp [start]
  · simp
  · rw [List.flatMap_cons, List.append_assoc, first_bytes]

theorem run_bytes {s : State} (h : Begun s) (bs : List ℕ) :
    (run s bs).1.flatMap Piece.bytes ++ (run s bs).2.bytes = s.bytes ++ bs := by
  induction bs generalizing s with
  | nil => simp [run]
  | cons b bs ih =>
    have hrest := ih (begun_next h b).1
    have hnext := next_bytes h b
    calc (run s (b :: bs)).1.flatMap Piece.bytes ++ (run s (b :: bs)).2.bytes
        = (next s b).1.flatMap Piece.bytes ++
            ((run (next s b).2 bs).1.flatMap Piece.bytes ++ (run (next s b).2 bs).2.bytes) := by
          simp [run]
      _ = ((next s b).1.flatMap Piece.bytes ++ (next s b).2.bytes) ++ bs := by rw [hrest, List.append_assoc]
      _ = s.bytes ++ b :: bs := by rw [hnext]; simp

theorem finish_bytes {s : State} (h : Begun s) : (finish s).flatMap Piece.bytes = s.bytes := by
  cases h <;> rfl

/-- The pieces cut the bytes up. -/
theorem pieces_bytes (bs : List ℕ) : (pieces bs).flatMap Piece.bytes = bs := by
  have hrun := run_bytes .nothing bs
  rw [pieces, List.flatMap_append, finish_bytes (begun_run .nothing bs).1, hrun]
  rfl

theorem first_one {b : ℕ} (h : b < 0x80) : first b = ([⟨[b], some b⟩], start) := if_pos h

theorem first_two {b : ℕ} (h : 0xc2 ≤ b ∧ b ≤ 0xdf) : first b = ([], ⟨[b], b - 0xc0, 1, 0x80, 0xbf⟩) := by
  rw [first, if_neg (by omega), if_pos h]

theorem first_three {b : ℕ} (h : 0xe0 ≤ b ∧ b ≤ 0xef) :
    first b = ([], ⟨[b], b - 0xe0, 2, if b = 0xe0 then 0xa0 else 0x80, if b = 0xed then 0x9f else 0xbf⟩) := by
  rw [first, if_neg (by omega), if_neg (by omega), if_pos h]

theorem first_four {b : ℕ} (h : 0xf0 ≤ b ∧ b ≤ 0xf4) :
    first b = ([], ⟨[b], b - 0xf0, 3, if b = 0xf0 then 0x90 else 0x80, if b = 0xf4 then 0x8f else 0xbf⟩) := by
  rw [first, if_neg (by omega), if_neg (by omega), if_neg (by omega), if_pos h]

theorem next_start (b : ℕ) : next start b = first b := rfl

theorem next_last {bytes : List ℕ} {value lower upper b : ℕ} (h : lower ≤ b ∧ b ≤ upper) :
    next ⟨bytes, value, 1, lower, upper⟩ b = ([⟨bytes ++ [b], some (value * 64 + b % 64)⟩], start) := by
  rw [next, if_neg Nat.one_ne_zero, if_pos h, if_pos rfl]

theorem next_more (needed : ℕ) {bytes : List ℕ} {value lower upper b : ℕ} (h : lower ≤ b ∧ b ≤ upper) :
    next ⟨bytes, value, needed + 2, lower, upper⟩ b =
      ([], ⟨bytes ++ [b], value * 64 + b % 64, needed + 1, 0x80, 0xbf⟩) := by
  rw [next, if_neg (Nat.succ_ne_zero _), if_pos h, if_neg (by simp)]
  rfl

/-- The bytes of a character are read as it. -/
theorem run_scalar {c : ℕ} (h : IsScalar c) : run start (scalarBytes c) = ([whole c], start) := by
  unfold IsScalar at h
  by_cases h1 : c < 0x80
  · have hbytes : scalarBytes c = [c] := if_pos h1
    simp [whole, hbytes, run, next_start, first_one h1]
  · by_cases h2 : c < 0x800
    · have hbytes : scalarBytes c = [0xc0 + c / 64, 0x80 + c % 64] := by
        rw [scalarBytes, if_neg h1, if_pos h2]
      have hvalue : (0xc0 + c / 64 - 0xc0) * 64 + (0x80 + c % 64) % 64 = c := by omega
      have hlead : 0xc2 ≤ 0xc0 + c / 64 ∧ 0xc0 + c / 64 ≤ 0xdf := by omega
      have htail : 0x80 ≤ 0x80 + c % 64 ∧ 0x80 + c % 64 ≤ 0xbf := by omega
      rw [whole, hbytes, run, next_start, first_two hlead, run, next_last htail, hvalue]
      rfl
    · by_cases h3 : c < 0x10000
      · have hbytes : scalarBytes c = [0xe0 + c / 4096, 0x80 + c / 64 % 64, 0x80 + c % 64] := by
          rw [scalarBytes, if_neg h1, if_neg h2, if_pos h3]
        have hvalue : ((0xe0 + c / 4096 - 0xe0) * 64 + (0x80 + c / 64 % 64) % 64) * 64 +
            (0x80 + c % 64) % 64 = c := by
          omega
        have hlead : 0xe0 ≤ 0xe0 + c / 4096 ∧ 0xe0 + c / 4096 ≤ 0xef := by omega
        have hsecond : (if 0xe0 + c / 4096 = 0xe0 then 0xa0 else 0x80) ≤ 0x80 + c / 64 % 64 ∧
            0x80 + c / 64 % 64 ≤ (if 0xe0 + c / 4096 = 0xed then 0x9f else 0xbf) := by
          split_ifs <;> omega
        have htail : 0x80 ≤ 0x80 + c % 64 ∧ 0x80 + c % 64 ≤ 0xbf := by omega
        rw [whole, hbytes, run, next_start, first_three hlead, run, next_more 0 hsecond, run,
          next_last htail, hvalue]
        rfl
      · have hbytes : scalarBytes c =
            [0xf0 + c / 262144, 0x80 + c / 4096 % 64, 0x80 + c / 64 % 64, 0x80 + c % 64] := by
          rw [scalarBytes, if_neg h1, if_neg h2, if_neg h3]
        have hvalue : (((0xf0 + c / 262144 - 0xf0) * 64 + (0x80 + c / 4096 % 64) % 64) * 64 +
            (0x80 + c / 64 % 64) % 64) * 64 + (0x80 + c % 64) % 64 = c := by omega
        have hlead : 0xf0 ≤ 0xf0 + c / 262144 ∧ 0xf0 + c / 262144 ≤ 0xf4 := by omega
        have hsecond : (if 0xf0 + c / 262144 = 0xf0 then 0x90 else 0x80) ≤ 0x80 + c / 4096 % 64 ∧
            0x80 + c / 4096 % 64 ≤ (if 0xf0 + c / 262144 = 0xf4 then 0x8f else 0xbf) := by
          split_ifs <;> omega
        have hthird : 0x80 ≤ 0x80 + c / 64 % 64 ∧ 0x80 + c / 64 % 64 ≤ 0xbf := by omega
        have htail : 0x80 ≤ 0x80 + c % 64 ∧ 0x80 + c % 64 ≤ 0xbf := by omega
        rw [whole, hbytes, run, next_start, first_four hlead, run, next_more 1 hsecond, run,
          next_more 0 hthird, run, next_last htail, hvalue]
        rfl

theorem run_text {cs : List ℕ} (h : ∀ c ∈ cs, IsScalar c) :
    run start (encodeText cs) = (cs.map whole, start) := by
  induction cs with
  | nil => rfl
  | cons c cs ih =>
    have hc := run_scalar (h c List.mem_cons_self)
    have hcs := ih fun d hd => h d (List.mem_cons_of_mem _ hd)
    have hsplit : encodeText (c :: cs) = scalarBytes c ++ encodeText cs := rfl
    rw [hsplit, run_append, hc, hcs]
    rfl

theorem pieces_text {cs : List ℕ} (h : ∀ c ∈ cs, IsScalar c) : pieces (encodeText cs) = cs.map whole := by
  rw [pieces, run_text h]
  exact List.append_nil _

theorem decode_encode {cs : List ℕ} (h : ∀ c ∈ cs, IsScalar c) : decode (encodeText cs) = cs := by
  rw [decode, pieces_text h, List.map_map]
  exact List.map_id cs

theorem decode_scalar {bs : List ℕ} {c : ℕ} (h : c ∈ decode bs) : IsScalar c := by
  obtain ⟨p, hp, rfl⟩ := List.mem_map.mp h
  cases hscalar : p.scalar with
  | none =>
    rw [Piece.char, hscalar]
    exact .inr (by decide)
  | some d =>
    rw [Piece.char, hscalar]
    exact (sound_pieces hp d hscalar).1

/-- The bytes are those of a text. -/
def Valid (bs : List ℕ) : Prop := ∀ p ∈ pieces bs, p.scalar.isSome = true

instance (bs : List ℕ) : Decidable (Valid bs) := inferInstanceAs (Decidable (∀ p ∈ pieces bs, _))

theorem encode_decode {bs : List ℕ} (h : Valid bs) : encodeText (decode bs) = bs := by
  have hpieces : ∀ p ∈ pieces bs, scalarBytes p.char = p.bytes := by
    intro p hp
    obtain ⟨c, hc⟩ := Option.isSome_iff_exists.mp (h p hp)
    rw [(sound_pieces hp c hc).2, Piece.char, hc]
    rfl
  calc encodeText (decode bs) = (pieces bs).flatMap fun p => scalarBytes p.char := by
        rw [encodeText, decode, List.flatMap_map]
    _ = (pieces bs).flatMap Piece.bytes := List.flatMap_congr hpieces
    _ = bs := pieces_bytes bs

theorem valid_text {cs : List ℕ} (h : ∀ c ∈ cs, IsScalar c) : Valid (encodeText cs) := by
  intro p hp
  rw [pieces_text h] at hp
  obtain ⟨c, -, rfl⟩ := List.mem_map.mp hp
  rfl

/-- Decoding loses nothing exactly where the bytes are those of a text. -/
theorem encode_decode_iff (bs : List ℕ) : encodeText (decode bs) = bs ↔ Valid bs := by
  constructor
  · intro h
    rw [← h]
    exact valid_text fun c hc => decode_scalar hc
  · exact encode_decode

end RoundTrips

section Ascii

theorem begun_high {s : State} (h : Begun s) : (∀ b ∈ s.bytes, 0x80 ≤ b) ∧ 0x80 ≤ s.lower := by
  cases h with
  | nothing => simp [start]
  | two a h1 h2 => simp; omega
  | three a h1 h2 => simp; split_ifs <;> omega
  | threeTwo a b h1 h2 h3 h4 h5 h6 => simp; omega
  | four a h1 h2 => simp; split_ifs <;> omega
  | fourTwo a b h1 h2 h3 h4 h5 h6 => simp; omega
  | fourThree a b c h1 h2 h3 h4 h5 h6 h7 h8 => simp; omega

theorem next_ascii {s : State} (h : Begun s) {b : ℕ} (hb : b < 0x80) : b ∈ (next s b).1.map Piece.char := by
  obtain ⟨-, hlower⟩ := begun_high h
  unfold next
  split_ifs with hneeded hrange hlast
  · simp [first_one hb, Piece.char]
  · omega
  · omega
  · simp [first_one hb, Piece.char]

/-- A character of one byte stands in the text where its byte stands. -/
theorem mem_run_ascii {s : State} (h : Begun s) (bs : List ℕ) {b : ℕ} (hb : b < 0x80) :
    b ∈ (run s bs).1.map Piece.char ↔ b ∈ bs := by
  constructor
  · intro hmem
    obtain ⟨p, hp, hchar⟩ := List.mem_map.mp hmem
    obtain ⟨hbegun, hsound⟩ := begun_run h bs
    have hscalar : p.scalar = some b := by
      cases hcase : p.scalar with
      | none =>
        rw [Piece.char, hcase] at hchar
        change replacement = b at hchar
        rw [← hchar] at hb
        exact absurd hb (by decide)
      | some c =>
        rw [Piece.char, hcase] at hchar
        exact congrArg some hchar
    have hbytes : p.bytes = [b] := by rw [(hsound p hp b hscalar).2, scalarBytes, if_pos hb]
    have hin : b ∈ (run s bs).1.flatMap Piece.bytes := List.mem_flatMap.mpr ⟨p, hp, by simp [hbytes]⟩
    have hall := run_bytes h bs
    have hsplit : b ∈ s.bytes ++ bs := by
      rw [← hall]
      exact List.mem_append_left _ hin
    rcases List.mem_append.mp hsplit with hbefore | hbs
    · have hhigh := (begun_high h).1 b hbefore
      omega
    · exact hbs
  · intro hmem
    induction bs generalizing s with
    | nil => simp at hmem
    | cons d bs ih =>
      rw [run, List.map_append, List.mem_append]
      rcases List.mem_cons.mp hmem with rfl | hmem
      · exact .inl (next_ascii h hb)
      · exact .inr (ih (begun_next h d).1 hmem)

theorem finish_char {s : State} {c : ℕ} (h : c ∈ (finish s).map Piece.char) : c = replacement := by
  unfold finish at h
  split_ifs at h
  · simp at h
  · simpa [Piece.char] using h

end Ascii

section Cuts

def single (b : ℕ) : Piece := ⟨[b], none⟩

theorem finish_partial {s : State} (h : s.needed ≠ 0) : finish s = [⟨s.bytes, none⟩] := if_neg h

theorem finish_idle {s : State} (h : s.needed = 0) : finish s = [] := if_pos h

theorem begun_idle {s : State} (h : Begun s) (hneeded : s.needed = 0) : s = start := by
  cases h with
  | nothing => rfl
  | _ => cases hneeded

theorem begun_nonempty {s : State} (h : Begun s) (hneeded : s.needed ≠ 0) : s.bytes ≠ [] := by
  cases h with
  | nothing => exact absurd rfl hneeded
  | _ => simp

theorem begun_upper {s : State} (h : Begun s) : s.upper ≤ 0xbf := by
  cases h with
  | nothing => exact Nat.le_refl _
  | three a h1 h2 => simp only; split_ifs <;> omega
  | four a h1 h2 => simp only; split_ifs <;> omega
  | _ => exact Nat.le_refl _

theorem first_stray {b : ℕ} (h : 0x80 ≤ b ∧ b ≤ 0xbf) : first b = ([single b], start) := by
  rw [first, if_neg (by omega), if_neg (by omega), if_neg (by omega), if_neg (by omega)]
  rfl

theorem pieces_cons_of_first {b : ℕ} {p : Piece} (h : first b = ([p], start)) (bs : List ℕ) :
    pieces (b :: bs) = p :: pieces bs := by
  simp [pieces, run, next_start, h]

/-- Bytes after the beginning of a character: they complete it, or they are read alone and it is broken. -/
theorem cut_inside {s : State} (h : Begun s) (hneeded : s.needed ≠ 0) (ys : List ℕ) :
    ∃ (p : Piece) (strays : List ℕ) (tail : List Piece),
      (run s ys).1 ++ finish (run s ys).2 = p :: tail ∧ pieces ys = strays.map single ++ tail ∧
        p.bytes = s.bytes ++ strays ∧ (strays = [] → p.scalar = none) := by
  induction ys generalizing s with
  | nil => exact ⟨⟨s.bytes, none⟩, [],
      [], by rw [run]; exact finish_partial hneeded, rfl, by simp, fun _ => rfl⟩
  | cons b ys ih =>
    have hrun : (run s (b :: ys)).1 ++ finish (run s (b :: ys)).2 =
        (next s b).1 ++ ((run (next s b).2 ys).1 ++ finish (run (next s b).2 ys).2) := by simp [run]
    by_cases hrange : s.lower ≤ b ∧ b ≤ s.upper
    · have hstray : pieces (b :: ys) = single b :: pieces ys :=
        pieces_cons_of_first
          (first_stray ⟨(begun_high h).2.trans hrange.1, hrange.2.trans (begun_upper h)⟩) ys
      by_cases hlast : s.needed = 1
      · have hnext : next s b = ([⟨s.bytes ++ [b], some (s.value * 64 + b % 64)⟩], start) := by
          rw [next, if_neg hneeded, if_pos hrange, if_pos hlast]
        refine ⟨⟨s.bytes ++ [b], some (s.value * 64 + b % 64)⟩, [b], pieces ys, ?_, hstray, rfl, by simp⟩
        rw [hrun, hnext]
        rfl
      · have hnext : next s b = ([], ⟨s.bytes ++ [b], s.value * 64 + b % 64, s.needed - 1, 0x80, 0xbf⟩) := by
          rw [next, if_neg hneeded, if_pos hrange, if_neg hlast]
        have hbegun := (begun_next h b).1
        rw [hnext] at hbegun
        obtain ⟨p, strays, tail, hpieces, hys, hbytes, -⟩ := ih hbegun (show s.needed - 1 ≠ 0 by omega)
        refine ⟨p, b :: strays, tail, ?_, by rw [hstray, hys]; rfl, by rw [hbytes]; simp, by simp⟩
        rw [hrun, hnext]
        exact hpieces
    · have hnext : next s b = (⟨s.bytes, none⟩ :: (first b).1, (first b).2) := by
        rw [next, if_neg hneeded, if_neg hrange]
      refine ⟨⟨s.bytes, none⟩, [], pieces (b :: ys), ?_, rfl, by simp, fun _ => rfl⟩
      rw [hrun, hnext]
      simp [pieces, run, next_start]

/-- What becomes of the pieces when the bytes are cut: a piece stays, or several broken ones stand for it. -/
inductive Refines : List Piece → List Piece → Prop where
  | nil : Refines [] []
  | keep (p : Piece) {ps qs : List Piece} : Refines ps qs → Refines (p :: ps) (p :: qs)
  | split (p : Piece) (l : List Piece) {ps qs : List Piece} : 2 ≤ p.bytes.length → 2 ≤ l.length →
      (∀ q ∈ l, q.scalar = none) → Refines ps qs → Refines (p :: ps) (l ++ qs)

theorem refines_refl (ps : List Piece) : Refines ps ps := by
  induction ps with
  | nil => exact .nil
  | cons p ps ih => exact .keep p ih

theorem refines_append {ps ps' qs qs' : List Piece} (h : Refines ps qs) (h' : Refines ps' qs') :
    Refines (ps ++ ps') (qs ++ qs') := by
  induction h with
  | nil => exact h'
  | keep p _ ih => exact .keep p ih
  | split p l htwo hlength hnone _ ih =>
    rw [List.append_assoc]
    exact .split p l htwo hlength hnone ih

theorem refines_parts {ps ps' rs : List Piece} (h : Refines (ps ++ ps') rs) :
    ∃ qs qs', rs = qs ++ qs' ∧ Refines ps qs ∧ Refines ps' qs' := by
  induction ps generalizing rs with
  | nil => exact ⟨[], rs, rfl, .nil, h⟩
  | cons p ps ih =>
    cases h with
    | keep _ h =>
      obtain ⟨qs, qs', rfl, hfirst, hrest⟩ := ih h
      exact ⟨p :: qs, qs', rfl, .keep p hfirst, hrest⟩
    | split _ l htwo hlength hnone h =>
      obtain ⟨qs, qs', rfl, hfirst, hrest⟩ := ih h
      exact ⟨l ++ qs, qs', (List.append_assoc _ _ _).symm, .split p l htwo hlength hnone hfirst, hrest⟩

theorem refines_broken {l qs : List Piece} (h : Refines l qs) (hl : ∀ q ∈ l, q.scalar = none) :
    l.length ≤ qs.length ∧ ∀ q ∈ qs, q.scalar = none := by
  induction h with
  | nil => exact ⟨Nat.le_refl _, by simp⟩
  | keep p _ ih =>
    obtain ⟨hlength, hnone⟩ := ih fun q hq => hl q (List.mem_cons_of_mem _ hq)
    refine ⟨Nat.succ_le_succ hlength, ?_⟩
    intro q hq
    rcases List.mem_cons.mp hq with rfl | hq
    · exact hl q List.mem_cons_self
    · exact hnone q hq
  | split p m _ htwo hm _ ih =>
    obtain ⟨hlength, hnone⟩ := ih fun q hq => hl q (List.mem_cons_of_mem _ hq)
    refine ⟨by rw [List.length_cons, List.length_append]; omega, ?_⟩
    intro q hq
    rcases List.mem_append.mp hq with hq | hq
    · exact hm q hq
    · exact hnone q hq

theorem refines_trans {ps qs rs : List Piece} (h : Refines ps qs) (h' : Refines qs rs) : Refines ps rs := by
  induction h generalizing rs with
  | nil => exact h'
  | keep p _ ih =>
    cases h' with
    | keep _ h' => exact .keep p (ih h')
    | split _ l htwo hlength hnone h' => exact .split p l htwo hlength hnone (ih h')
  | split p l htwo hlength hnone _ ih =>
    obtain ⟨ms, ms', rfl, hfirst, hrest⟩ := refines_parts h'
    obtain ⟨hmore, hbroken⟩ := refines_broken hfirst hnone
    exact .split p ms htwo (hlength.trans hmore) hbroken (ih hrest)

/-- The pieces of two parts refine the pieces of the whole. -/
theorem refines_cut (xs ys : List ℕ) : Refines (pieces (xs ++ ys)) (pieces xs ++ pieces ys) := by
  obtain ⟨hbegun, -⟩ := begun_run .nothing xs
  have hwhole : pieces (xs ++ ys) = (run start xs).1 ++ ((run (run start xs).2 ys).1 ++
      finish (run (run start xs).2 ys).2) := by simp [pieces, run_append]
  rw [hwhole, pieces, List.append_assoc]
  apply refines_append (refines_refl _)
  by_cases hneeded : (run start xs).2.needed = 0
  · rw [finish_idle hneeded, begun_idle hbegun hneeded]
    exact refines_refl _
  · obtain ⟨p, strays, tail, hpieces, hys, hbytes, hbroken⟩ := cut_inside hbegun hneeded ys
    rw [hpieces, hys, finish_partial hneeded]
    cases strays with
    | nil =>
      have hp : p = ⟨(run start xs).2.bytes, none⟩ := by
        obtain ⟨bytes, scalar⟩ := p
        have hscalar : scalar = none := hbroken rfl
        have hsame : bytes = (run start xs).2.bytes := by simpa using hbytes
        rw [hscalar, hsame]
      rw [hp]
      exact refines_refl _
    | cons b strays =>
      have hpositive := List.length_pos_iff.mpr (begun_nonempty hbegun hneeded)
      have hlist : [⟨(run start xs).2.bytes, none⟩] ++ (List.map single (b :: strays) ++ tail) =
          (⟨(run start xs).2.bytes, none⟩ :: List.map single (b :: strays)) ++ tail := rfl
      rw [hlist]
      refine .split p _ ?_ ?_ ?_ (refines_refl _)
      · rw [hbytes, List.length_append, List.length_cons]
        omega
      · simp
      · intro q hq
        rcases List.mem_cons.mp hq with rfl | hq
        · rfl
        · obtain ⟨d, -, rfl⟩ := List.mem_map.mp hq
          rfl

/-- So do the pieces of all parts. -/
theorem refines_chunks (chunks : List (List ℕ)) :
    Refines (pieces chunks.flatten) (chunks.flatMap pieces) := by
  induction chunks with
  | nil => exact .nil
  | cons chunk chunks ih =>
    rw [List.flatten_cons, List.flatMap_cons]
    exact refines_trans (refines_cut chunk chunks.flatten) (refines_append (refines_refl _) ih)

/-- Where each byte is a piece, cutting changes nothing. -/
theorem refines_single {ps qs : List Piece} (h : Refines ps qs)
    (hsingle : ∀ p ∈ ps, p.bytes.length < 2) : qs = ps := by
  induction h with
  | nil => rfl
  | keep p _ ih => rw [ih fun q hq => hsingle q (List.mem_cons_of_mem _ hq)]
  | split p l htwo _ _ _ _ =>
    have hone := hsingle p List.mem_cons_self
    omega

theorem pieces_nonempty {bs : List ℕ} (h : bs ≠ []) : pieces bs ≠ [] := by
  intro hnil
  have hbytes := pieces_bytes bs
  rw [hnil] at hbytes
  exact h hbytes.symm

theorem pieces_split (xs ys : List ℕ) :
    pieces (xs ++ ys) = (run start xs).1 ++
      ((run (run start xs).2 ys).1 ++ finish (run (run start xs).2 ys).2) ∧
      (run start xs).1.flatMap Piece.bytes ++ (run start xs).2.bytes = xs :=
  ⟨by simp [pieces, run_append], run_bytes .nothing xs⟩

/-- A piece of several bytes can be cut behind its first byte. -/
theorem cut_piece {bs : List ℕ} {before after : List Piece} {p : Piece} (h : pieces bs = before ++ p :: after)
    (htwo : 2 ≤ p.bytes.length) :
    ∃ (xs ys : List ℕ) (b : ℕ) (strays : List ℕ), bs = xs ++ ys ∧ xs ≠ [] ∧ strays ≠ [] ∧
      pieces xs = before ++ [single b] ∧ pieces ys = strays.map single ++ after := by
  have hbytes := pieces_bytes bs
  rw [h, List.flatMap_append, List.flatMap_cons] at hbytes
  obtain ⟨n, hn⟩ : ∃ n, n = (before.flatMap Piece.bytes).length + 1 := ⟨_, rfl⟩
  have hbs : bs = bs.take n ++ bs.drop n := (List.take_append_drop n bs).symm
  have htake : (bs.take n).length = n := by
    rw [List.length_take, ← hbytes, List.length_append, List.length_append]
    omega
  obtain ⟨hsplit, hread⟩ := pieces_split (bs.take n) (bs.drop n)
  obtain ⟨hbegun, -⟩ := begun_run .nothing (bs.take n)
  have hpieces : pieces (bs.take n) = (run start (bs.take n)).1 ++ finish (run start (bs.take n)).2 := rfl
  rw [← hbs, h] at hsplit
  generalize (run start (bs.take n)).1 = ps, (run start (bs.take n)).2 = s at *
  have hlength := congrArg List.length hread
  rw [List.length_append, htake, hn] at hlength
  by_cases hneeded : s.needed = 0
  · have hnone : s.bytes.length = 0 := by rw [begun_idle hbegun hneeded]; rfl
    rcases List.append_eq_append_iff.mp hsplit with ⟨as, rfl, has⟩ | ⟨bs', rfl, -⟩
    · cases as with
      | nil => simp at hlength; omega
      | cons q as =>
        obtain ⟨rfl, -⟩ := List.cons.inj has
        simp at hlength
        omega
    · simp at hlength
      omega
  · obtain ⟨q, strays, tail, hrest, hys, hq, -⟩ := cut_inside hbegun hneeded (bs.drop n)
    rw [hrest] at hsplit
    have hsame : ps = before ∧ q = p ∧ tail = after := by
      rcases List.append_eq_append_iff.mp hsplit with ⟨as, rfl, has⟩ | ⟨as, rfl, has⟩
      · cases as with
        | nil =>
          obtain ⟨rfl, rfl⟩ := List.cons.inj has
          exact ⟨List.append_nil _, rfl, rfl⟩
        | cons r as =>
          obtain ⟨rfl, -⟩ := List.cons.inj has
          simp at hlength
          omega
      · cases as with
        | nil =>
          obtain ⟨rfl, rfl⟩ := List.cons.inj has
          exact ⟨(List.append_nil _).symm, rfl, rfl⟩
        | cons r as =>
          obtain ⟨rfl, -⟩ := List.cons.inj has
          rw [List.flatMap_append, List.flatMap_cons, hq] at hlength
          simp at hlength
          omega
    obtain ⟨rfl, rfl, rfl⟩ := hsame
    obtain ⟨b, hb⟩ : ∃ b, s.bytes = [b] := List.length_eq_one_iff.mp (by omega)
    refine ⟨bs.take n, bs.drop n, b, strays, hbs, ?_, ?_, ?_, hys⟩
    · intro hnil
      rw [hnil] at htake
      simp at htake
      omega
    · rintro rfl
      rw [hq, hb] at htwo
      simp at htwo
    · rw [hpieces, finish_partial hneeded, hb]
      rfl

theorem length_pieces_one (b : ℕ) : (pieces [b]).length = 1 := by
  have hpieces : pieces [b] = (first b).1 ++ finish (first b).2 := by simp [pieces, run, next_start]
  rw [hpieces, first]
  split_ifs <;> rfl

/-- Without its last byte a text loses at most its last piece. -/
theorem pieces_dropLast (xs : List ℕ) (b : ℕ) :
    ∃ extra, pieces xs = (pieces (xs ++ [b])).dropLast ++ extra := by
  obtain ⟨hsplit, -⟩ := pieces_split xs [b]
  obtain ⟨hbegun, -⟩ := begun_run .nothing xs
  have hone := length_pieces_one b
  have hpieces : pieces xs = (run start xs).1 ++ finish (run start xs).2 := rfl
  rw [hsplit, hpieces]
  generalize (run start xs).1 = ps, (run start xs).2 = s at *
  by_cases hneeded : s.needed = 0
  · refine ⟨[], ?_⟩
    have hstart := begun_idle hbegun hneeded
    rw [finish_idle hneeded, hstart]
    obtain ⟨q, hq⟩ := List.length_eq_one_iff.mp hone
    have hrest : (run start [b]).1 ++ finish (run start [b]).2 = [q] := hq
    rw [hrest, List.dropLast_concat]
  · obtain ⟨q, strays, tail, hrest, hys, hq, hbroken⟩ := cut_inside hbegun hneeded [b]
    rw [hrest, finish_partial hneeded]
    cases tail with
    | nil => exact ⟨[⟨s.bytes, none⟩], by rw [List.dropLast_concat]⟩
    | cons r tail =>
      have hcount := congrArg List.length hys
      rw [hone, List.length_append, List.length_map, List.length_cons] at hcount
      have hstrays : strays = [] := List.length_eq_zero_iff.mp (by omega)
      have htail : tail = [] := List.length_eq_zero_iff.mp (by omega)
      subst hstrays htail
      have hbroken : q = ⟨s.bytes, none⟩ := by
        obtain ⟨bytes, scalar⟩ := q
        have hscalar : scalar = none := hbroken rfl
        have hsame : bytes = s.bytes := by simpa using hq
        rw [hscalar, hsame]
      refine ⟨[], ?_⟩
      rw [hbroken]
      simp [List.dropLast_append_of_ne_nil]

end Cuts

end AccessStack.Utf8
