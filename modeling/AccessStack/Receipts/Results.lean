import AccessStack.Receipts.Store

/-!
# Results that survive being stored

A completed receipt holds what JSON keeps of its parsed result. That value
is read back unchanged any number of times. A plain value is also kept as it
was given.
-/

set_option autoImplicit false

namespace AccessStack.Receipts
open AccessStack.Rows

variable {ν : Type}

section Plain

mutual

/-- A value JSON keeps: no holes, no `-0`, ordinary objects, and no entry
named `__proto__`. -/
def plain : Value ν → Bool
  | .null | .bool _ | .num _ | .str _ => true
  | .negativeZero | .nonFinite | .hole | .other _ => false
  | .arr items => plainItems items
  | .obj prototype fields => prototype = .object && plainFields fields

def plainItems : List (Value ν) → Bool
  | [] => true
  | v::rest => plain v && plainItems rest

def plainFields : List (String × Value ν) → Bool
  | [] => true
  | (key, v)::rest => key ≠ "__proto__" && plain v && plainFields rest

end

/-- An assignment of the value to `__proto__` is without effect. -/
def ignored : Value ν → Bool
  | .null | .arr _ | .obj _ _ => false
  | _ => true

mutual

/-- A value whose parsed form JSON keeps. -/
def lossless : Value ν → Bool
  | .null | .bool _ | .num _ | .str _ => true
  | .negativeZero | .nonFinite | .hole | .other _ => false
  | .arr items => losslessItems items
  | .obj _ fields => losslessFields fields

def losslessItems : List (Value ν) → Bool
  | [] => true
  | v::rest => lossless v && losslessItems rest

def losslessFields : List (String × Value ν) → Bool
  | [] => true
  | (key, v)::rest =>
    (if key = "__proto__" then ignored v else lossless v) && losslessFields rest

end

end Plain

theorem map_ok {ε α β : Type} {x : Except ε α} {f : α → β} {b : β} :
    x.map f = .ok b ↔ ∃ a, x = .ok a ∧ f a = b := by
  cases x with
  | error e => simp [Except.map]
  | ok a => simp [Except.map]

theorem plain_isHole {v : Value ν} (h : plain v = true) : v.isHole = false := by
  cases v <;> simp_all [plain, Value.isHole]

section Given

mutual

theorem parse_plain (path : List String) {v p : Value ν} (hv : plain v = true)
    (h : parsePublicResultValue path v = .ok p) : p = v := by
  cases v with
  | null => cases h; rfl
  | bool b => cases h; rfl
  | num n => cases h; rfl
  | str s => cases h; rfl
  | negativeZero => cases hv
  | nonFinite => cases hv
  | hole => cases hv
  | other type => cases hv
  | arr items =>
    rw [parsePublicResultValue] at h
    obtain ⟨items', hitems, rfl⟩ := map_ok.mp h
    rw [parseItems_plain path 0 (by simpa [plain] using hv) hitems]
  | obj prototype fields =>
    simp only [plain, Bool.and_eq_true, decide_eq_true_eq] at hv
    obtain ⟨rfl, hfields⟩ := hv
    rw [parsePublicResultValue, if_neg (by decide)] at h
    obtain ⟨r, hr, rfl⟩ := map_ok.mp h
    rw [parseFields_plain path .object hfields hr]

theorem parseItems_plain (path : List String) (index : ℕ) {items items' : List (Value ν)}
    (hv : plainItems items = true) (h : parseItems path index items = .ok items') :
    items' = items := by
  cases items with
  | nil => cases h; rfl
  | cons v rest =>
    simp only [plainItems, Bool.and_eq_true] at hv
    rw [parseItems, plain_isHole hv.1] at h
    obtain ⟨item, hitem, h⟩ := bind_ok.mp h
    obtain ⟨rest', hrest, h⟩ := bind_ok.mp h
    cases h
    rw [parse_plain _ hv.1 hitem, parseItems_plain path _ hv.2 hrest]

theorem parseFields_plain (path : List String) (prototype : Prototype)
    {fields : List (String × Value ν)} {r : Prototype × List (String × Value ν)}
    (hv : plainFields fields = true) (h : parseFields path prototype fields = .ok r) :
    r = (prototype, fields) := by
  cases fields with
  | nil => cases h; rfl
  | cons f rest =>
    obtain ⟨key, v⟩ := f
    simp only [plainFields, Bool.and_eq_true, decide_eq_true_eq] at hv
    rw [parseFields] at h
    split at h
    · cases h
    obtain ⟨entry, hentry, h⟩ := bind_ok.mp h
    rw [if_neg hv.1.1] at h
    obtain ⟨r', hr', h⟩ := bind_ok.mp h
    cases h
    rw [parse_plain _ hv.1.2 hentry, parseFields_plain path prototype hv.2 hr']

end

end Given

section Kept

variable [Zero ν]

mutual

theorem clone_plain {v : Value ν} (h : plain v = true) : cloneValue v = v := by
  cases v with
  | null => rfl
  | bool b => rfl
  | num n => rfl
  | str s => rfl
  | negativeZero => cases h
  | nonFinite => cases h
  | hole => cases h
  | other type => cases h
  | arr items => rw [cloneValue, cloneItems_plain (by simpa [plain] using h)]
  | obj prototype fields =>
    simp only [plain, Bool.and_eq_true, decide_eq_true_eq] at h
    rw [cloneValue, cloneFields_plain h.2, h.1]

theorem cloneItems_plain {items : List (Value ν)} (h : plainItems items = true) :
    cloneItems items = items := by
  cases items with
  | nil => rfl
  | cons v rest =>
    simp only [plainItems, Bool.and_eq_true] at h
    rw [cloneItems, clone_plain h.1, cloneItems_plain h.2]

theorem cloneFields_plain {fields : List (String × Value ν)} (h : plainFields fields = true) :
    cloneFields fields = fields := by
  cases fields with
  | nil => rfl
  | cons f rest =>
    obtain ⟨key, v⟩ := f
    simp only [plainFields, Bool.and_eq_true] at h
    rw [cloneFields, clone_plain h.1.2, cloneFields_plain h.2]

end

mutual

/-- What JSON keeps of a parsed value is parsed to itself. -/
theorem parse_clone {path : List String} {v p : Value ν}
    (h : parsePublicResultValue path v = .ok p) (path' : List String) :
    parsePublicResultValue path' (cloneValue p) = .ok (cloneValue p) := by
  cases v with
  | null => cases h; rfl
  | bool b => cases h; rfl
  | num n => cases h; rfl
  | str s => cases h; rfl
  | negativeZero => cases h; rfl
  | nonFinite => cases h
  | hole => cases h
  | other type => cases h
  | arr items =>
    rw [parsePublicResultValue] at h
    obtain ⟨items', hitems, rfl⟩ := map_ok.mp h
    rw [cloneValue, parsePublicResultValue, parseItems_clone hitems path' 0]
    rfl
  | obj prototype fields =>
    rw [parsePublicResultValue] at h
    split at h
    · cases h
    obtain ⟨r, hr, rfl⟩ := map_ok.mp h
    rw [cloneValue, parsePublicResultValue, if_neg (by decide), parseFields_clone hr path' .object]
    rfl

theorem parseItems_clone {path : List String} {index : ℕ} {items items' : List (Value ν)}
    (h : parseItems path index items = .ok items') (path' : List String) (index' : ℕ) :
    parseItems path' index' (cloneItems items') = .ok (cloneItems items') := by
  cases items with
  | nil => cases h; rfl
  | cons v rest =>
    rw [parseItems] at h
    obtain ⟨item, hitem, h⟩ := bind_ok.mp h
    obtain ⟨rest', hrest, h⟩ := bind_ok.mp h
    cases h
    have hhead : parsePublicResultValue (path' ++ [toString index']) (cloneValue item) =
        .ok (cloneValue item) := by
      by_cases hv : v.isHole = true
      · rw [if_pos hv] at hitem
        cases hitem
        cases v <;> simp_all [Value.isHole, cloneValue, parsePublicResultValue]
      · rw [if_neg hv] at hitem
        exact parse_clone hitem _
    have hhole : (cloneValue item).isHole = false := by
      cases item <;> rfl
    rw [cloneItems, parseItems, hhole, if_neg Bool.false_ne_true, hhead,
      parseItems_clone hrest path' (index'+1)]
    rfl

theorem parseFields_clone {path : List String} {prototype : Prototype}
    {fields : List (String × Value ν)} {r : Prototype × List (String × Value ν)}
    (h : parseFields path prototype fields = .ok r) (path' : List String) (prototype' : Prototype) :
    parseFields path' prototype' (cloneFields r.2) = .ok (prototype', cloneFields r.2) := by
  cases fields with
  | nil => cases h; rfl
  | cons f rest =>
    obtain ⟨key, v⟩ := f
    rw [parseFields] at h
    split at h
    · cases h
    rename_i hkey
    obtain ⟨entry, hentry, h⟩ := bind_ok.mp h
    split at h
    · exact parseFields_clone h path' prototype'
    rename_i hname
    obtain ⟨r', hr', h⟩ := bind_ok.mp h
    cases h
    have hentry' := parse_clone hentry (path' ++ [key])
    have hrest' := parseFields_clone hr' path' prototype'
    simp [cloneFields, parseFields, hkey, hname, hentry', hrest', bind, Except.bind, pure,
      Except.pure]

end

mutual

theorem clone_clone (v : Value ν) : cloneValue (cloneValue v) = cloneValue v := by
  cases v with
  | arr items => rw [cloneValue, cloneValue, cloneItems_clone]
  | obj prototype fields => rw [cloneValue, cloneValue, cloneFields_clone]
  | _ => rfl

theorem cloneItems_clone (items : List (Value ν)) :
    cloneItems (cloneItems items) = cloneItems items := by
  cases items with
  | nil => rfl
  | cons v rest => rw [cloneItems, cloneItems, clone_clone v, cloneItems_clone rest]

theorem cloneFields_clone (fields : List (String × Value ν)) :
    cloneFields (cloneFields fields) = cloneFields fields := by
  cases fields with
  | nil => rfl
  | cons f rest => rw [cloneFields, cloneFields, clone_clone f.2, cloneFields_clone rest]

end

end Kept

section Lossless

theorem inherited_ignored (prototype : Prototype) {path : List String} {v entry : Value ν}
    (hv : ignored v = true) (h : parsePublicResultValue path v = .ok entry) :
    inherited prototype entry = prototype := by
  cases v <;> simp [ignored] at hv <;> cases h <;> rfl

theorem lossless_isHole {v : Value ν} (h : lossless v = true) : v.isHole = false := by
  cases v <;> simp_all [lossless, Value.isHole]

mutual

theorem parse_lossless {path : List String} {v p : Value ν} (hv : lossless v = true)
    (h : parsePublicResultValue path v = .ok p) : plain p = true := by
  cases v with
  | null => cases h; rfl
  | bool b => cases h; rfl
  | num n => cases h; rfl
  | str s => cases h; rfl
  | negativeZero => cases hv
  | nonFinite => cases hv
  | hole => cases hv
  | other type => cases hv
  | arr items =>
    rw [parsePublicResultValue] at h
    obtain ⟨items', hitems, rfl⟩ := map_ok.mp h
    rw [plain]
    exact parseItems_lossless (by simpa [lossless] using hv) hitems
  | obj prototype fields =>
    rw [parsePublicResultValue] at h
    split at h
    · cases h
    obtain ⟨r, hr, rfl⟩ := map_ok.mp h
    have hfields := parseFields_lossless (by simpa [lossless] using hv) hr
    rw [plain, hfields.1, hfields.2]
    rfl

theorem parseItems_lossless {path : List String} {index : ℕ} {items items' : List (Value ν)}
    (hv : losslessItems items = true) (h : parseItems path index items = .ok items') :
    plainItems items' = true := by
  cases items with
  | nil => cases h; rfl
  | cons v rest =>
    simp only [losslessItems, Bool.and_eq_true] at hv
    rw [parseItems, lossless_isHole hv.1] at h
    obtain ⟨item, hitem, h⟩ := bind_ok.mp h
    obtain ⟨rest', hrest, h⟩ := bind_ok.mp h
    cases h
    rw [plainItems, parse_lossless hv.1 hitem, parseItems_lossless hv.2 hrest]
    rfl

theorem parseFields_lossless {path : List String} {prototype : Prototype}
    {fields : List (String × Value ν)} {r : Prototype × List (String × Value ν)}
    (hv : losslessFields fields = true) (h : parseFields path prototype fields = .ok r) :
    r.1 = prototype ∧ plainFields r.2 = true := by
  cases fields with
  | nil => cases h; exact ⟨rfl, rfl⟩
  | cons f rest =>
    obtain ⟨key, v⟩ := f
    simp only [losslessFields, Bool.and_eq_true] at hv
    rw [parseFields] at h
    split at h
    · cases h
    obtain ⟨entry, hentry, h⟩ := bind_ok.mp h
    split at h
    · rename_i hname
      rw [if_pos hname] at hv
      rw [inherited_ignored prototype hv.1 hentry] at h
      exact parseFields_lossless hv.2 h
    · rename_i hname
      rw [if_neg hname] at hv
      obtain ⟨r', hr', h⟩ := bind_ok.mp h
      cases h
      have hrest := parseFields_lossless hv.2 hr'
      refine ⟨hrest.1, ?_⟩
      simp [plainFields, hname, parse_lossless hv.1 hentry, hrest.2]

end

end Lossless

end AccessStack.Receipts
