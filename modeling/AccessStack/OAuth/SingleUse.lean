import AccessStack.OAuth.Owner
import AccessStack.Runs

/-!
# Token requests that overlap

`token` and `issueTokens` cut at their awaits: a read, a write or a delete of
the storage is one event, and so is a hash. A request reads the record of its
credential, checks it, waits, deletes the record and goes on to issue tokens
without asking whether there was anything left to delete.

`issued` lists the credentials that have led to tokens and `presented` those
that requests have named. A random refresh token is not one that has been
presented before.
-/

set_option autoImplicit false

namespace AccessStack.OAuth.SingleUse
open AccessStack.Runs

section Machine

inductive Credential where
  | code (key : String)
  | refresh (key : String)
  deriving DecidableEq

structure Granted where
  clientId : String
  scopes : List String
  resource : String
  userId : Option String
  deriving DecidableEq

/-- The await a request is at. -/
inductive Phase where
  | idle
  | looking (fields : TokenFields)
  | hashing (fields : TokenFields)
  | verifying (codeVerifier : String) (record : AuthorizationCodeRecord) (credential : Credential)
  | versioning (resource scope : Option String) (record : RefreshTokenRecord) (credential : Credential)
  | deleting (granted : Granted) (credential : Credential)
  | signing (granted : Granted) (now : ℕ) (credential : Credential)
  | stamping (granted : Granted) (now : ℕ) (credential : Credential)
  | storing (record : RefreshTokenRecord) (credential : Credential)
  | answered (status : ℕ)
  deriving DecidableEq

structure World where
  server : Server
  requests : List Phase
  issued : List Credential
  presented : List Credential

def World.initial (server : Server) : World := ⟨server, [], [], []⟩

variable (crypto : Crypto) (config : Config)

def credentialOf (fields : TokenFields) : Option Credential :=
  match fields.grant with
  | .code rawCode _ _ _ => some (.code (crypto.sha256Base64Url rawCode))
  | .refresh refreshToken _ _ => some (.refresh (crypto.sha256Base64Url refreshToken))
  | .other => none

inductive Event where
  | request (fields : TokenFields)
  | client (n : ℕ)
  | read (n now : ℕ)
  | verify (n : ℕ)
  | version (n : ℕ)
  | delete (n now : ℕ)
  | sign (n : ℕ)
  | stamp (n : ℕ)
  | store (n : ℕ) (token : String)
  deriving DecidableEq

def World.phase (w : World) (n : ℕ) : Phase := w.requests.getD n .idle

def World.goto (w : World) (n : ℕ) (phase : Phase) : World :=
  { w with requests := w.requests.set n phase }

def World.change (w : World) (f : Storage → Storage) : World :=
  { w with server := { w.server with storage := f w.server.storage } }

/-- The record is read and checked. -/
def readRecord (w : World) (n now : ℕ) (fields : TokenFields) : World :=
  match fields.grant with
  | .code rawCode redirectUri resource codeVerifier =>
    let key := crypto.sha256Base64Url rawCode
    match w.server.storage.codes key with
    | none => w.goto n (.answered 400)
    | some record =>
      if codeAccepted fields.clientId redirectUri resource record now then
        w.goto n (.verifying codeVerifier record (.code key))
      else w.goto n (.answered 400)
  | .refresh refreshToken resource scope =>
    let key := crypto.sha256Base64Url refreshToken
    match w.server.storage.refresh key with
    | none => w.goto n (.answered 400)
    | some record =>
      if refreshAccepted fields.clientId record now then
        w.goto n (.versioning resource scope record (.refresh key))
      else w.goto n (.answered 400)
  | .other => w.goto n (.answered 400)

def deleteCredential (storage : Storage) : Credential → Storage
  | .code key => storage.deleteCode key
  | .refresh key => storage.deleteRefresh key

def storeRefresh (storage : Storage) (token : String) (record : RefreshTokenRecord) : Storage :=
  { storage with
    refresh := Function.update storage.refresh (crypto.sha256Base64Url ("refresh-" ++ token)) (some record) }

/-- One event. One that is not due changes nothing. -/
def step (w : World) : Event → World
  | .request fields =>
    { w with
      requests := w.requests ++ [.looking fields]
      presented := w.presented ++ (credentialOf crypto fields).toList }
  | .client n =>
    match w.phase n with
    | .looking fields =>
      if (w.server.storage.clients fields.clientId).isNone then w.goto n (.answered 400)
      else w.goto n (.hashing fields)
    | _ => w
  | .read n now =>
    match w.phase n with
    | .hashing fields => readRecord crypto w n now fields
    | _ => w
  | .verify n =>
    match w.phase n with
    | .verifying codeVerifier record credential =>
      if crypto.sha256Base64Url codeVerifier = record.codeChallenge then
        w.goto n (.deleting ⟨record.clientId, record.scopes, record.resource, record.userId⟩ credential)
      else w.goto n (.answered 400)
    | _ => w
  | .version n =>
    match w.phase n with
    | .versioning resource scope record credential =>
      match refreshRefused resource scope record (currentCredentialVersion w.server.storage) with
      | some _ => w.goto n (.answered 400)
      | none => w.goto n (.deleting
          ⟨record.clientId, requestedScopes scope record, record.resource, record.userId⟩ credential)
    | _ => w
  | .delete n now =>
    match w.phase n with
    | .deleting granted credential =>
      (w.change (deleteCredential · credential)).goto n (.signing granted now credential)
    | _ => w
  | .sign n =>
    match w.phase n with
    | .signing granted now credential =>
      match hmacKey crypto config w.server with
      | (none, server) => { w with server }.goto n (.answered 500)
      | (some _, server) => { w with server }.goto n (.stamping granted now credential)
    | _ => w
  | .stamp n =>
    match w.phase n with
    | .stamping granted now credential =>
      w.goto n (.storing
        (refreshRecord config granted.clientId granted.scopes granted.resource granted.userId now
        (currentCredentialVersion w.server.storage)) credential)
    | _ => w
  | .store n token =>
    match w.phase n with
    | .storing record credential =>
      { (w.change (storeRefresh crypto · token record)).goto n (.answered 200) with
        issued := w.issued ++ [credential] }
    | _ => w

/-- A random token has not been seen before. -/
def Fresh (w : World) : Event → Prop
  | .store _ token => Credential.refresh (crypto.sha256Base64Url ("refresh-" ++ token)) ∉ w.presented
  | _ => True

instance (w : World) (e : Event) : Decidable (Fresh crypto w e) := by
  cases e <;> unfold Fresh <;> infer_instance

/-- The credential of a request whose record has been read and not deleted. -/
def Phase.held : Phase → Option Credential
  | .verifying _ _ credential | .versioning _ _ _ credential | .deleting _ credential => some credential
  | _ => none

/-- The credential of a request whose record has been deleted. -/
def Phase.spending : Phase → Option Credential
  | .signing _ _ credential | .stamping _ _ credential | .storing _ credential => some credential
  | _ => none

def Phase.wanted : Phase → Option Credential
  | .hashing fields => credentialOf crypto fields
  | _ => none

/-- No record is read while another request still holds it. -/
def Exclusive (w : World) : Event → Prop
  | .read n _ => ∀ phase ∈ w.requests, ∀ credential ∈ ((w.phase n).wanted crypto).toList,
      phase.held ≠ some credential
  | _ => True

instance (w : World) (e : Event) : Decidable (Exclusive crypto w e) := by
  cases e <;> unfold Exclusive <;> infer_instance

end Machine

section Phases

variable {w : World} {m n : ℕ} {p q : Phase}

theorem phase_goto_self (h : w.phase n ≠ .idle) : (w.goto n q).phase n = q := by
  have hn : n < w.requests.length := by
    by_contra hn
    apply h
    simp [World.phase, List.getElem?_eq_none (Nat.le_of_not_lt hn)]
  simp [World.phase, World.goto, hn]

theorem phase_goto_ne (h : m ≠ n) : (w.goto n q).phase m = w.phase m := by
  simp [World.phase, World.goto, List.getElem?_set_ne (Ne.symm h)]

theorem phase_mem (h : w.phase n ≠ .idle) : w.phase n ∈ w.requests := by
  unfold World.phase at h ⊢
  rw [List.getD_eq_getElem?_getD] at h ⊢
  cases hn : w.requests[n]? with
  | none => simp [hn] at h
  | some phase => exact List.mem_of_getElem? hn

@[simp] theorem phase_change (f : Storage → Storage) : (w.change f).phase n = w.phase n := rfl

end Phases

section Invariant

variable (crypto : Crypto)

/-- The credential a request has named. -/
def Phase.named : Phase → Option Credential
  | .looking fields | .hashing fields => credentialOf crypto fields
  | .verifying _ _ credential | .versioning _ _ _ credential
  | .deleting _ credential | .signing _ _ credential | .stamping _ _ credential
  | .storing _ credential => some credential
  | _ => none

def stored (storage : Storage) : Credential → Bool
  | .code key => (storage.codes key).isSome
  | .refresh key => (storage.refresh key).isSome

/-- What a request may do to its phase without touching a record. -/
structure Narrows (p q : Phase) : Prop where
  named : ∀ c, q.named crypto = some c → p.named crypto = some c
  held : ∀ c, q.held = some c → p.held = some c
  spending : ∀ c, q.spending = some c → p.spending = some c

/-- Everything an event can do. -/
inductive Moves (w : World) : World → Prop
  | stay : Moves w w
  | request (fields : TokenFields) : Moves w { w with
      requests := w.requests ++ [.looking fields]
      presented := w.presented ++ (credentialOf crypto fields).toList }
  | goto {n : ℕ} {q : Phase} (server : Server) (hstorage : server.storage = w.server.storage)
      (hq : Narrows crypto (w.phase n) q) : Moves w ({ w with server }.goto n q)
  | take {n : ℕ} {q : Phase} (c : Credential) (hp : (w.phase n).wanted crypto = some c)
      (hstored : stored w.server.storage c = true) (hfree : ∀ m, (w.phase m).held ≠ some c)
      (hheld : q.held = some c) (hspending : q.spending = none) (hnamed : q.named crypto = some c) :
      Moves w (w.goto n q)
  | delete {n : ℕ} {q : Phase} (c : Credential) (hp : (w.phase n).held = some c)
      (hheld : q.held = none) (hspending : q.spending = some c) (hnamed : q.named crypto = some c) :
      Moves w ((w.change (deleteCredential · c)).goto n q)
  | store {n : ℕ} (c : Credential) (token : String) (record : RefreshTokenRecord)
      (hp : (w.phase n).spending = some c)
      (hfresh : Credential.refresh (crypto.sha256Base64Url ("refresh-" ++ token)) ∉ w.presented) :
      Moves w { (w.change (storeRefresh crypto · token record)).goto n (.answered 200) with
        issued := w.issued ++ [c] }

variable {crypto} {config : Config} {w : World}

theorem narrows_answered (p : Phase) (status : ℕ) : Narrows crypto p (.answered status) := by
  constructor <;> intro c h <;> cases h

theorem moves_answered (w : World) (n status : ℕ) : Moves crypto w (w.goto n (.answered status)) :=
  .goto w.server rfl (narrows_answered _ status)

/-- No request holds the credential another one is about to take. -/
theorem exclusive_free {n now : ℕ} {c : Credential} (h : Exclusive crypto w (.read n now))
    (hp : (w.phase n).wanted crypto = some c) (m : ℕ) : (w.phase m).held ≠ some c := by
  intro hm
  have hactive : w.phase m ≠ .idle := by
    intro hidle
    rw [hidle] at hm
    cases hm
  exact h (w.phase m) (phase_mem hactive) c (Option.mem_toList.mpr hp) hm

theorem readRecord_moves {n now : ℕ} {fields : TokenFields} (hp : w.phase n = .hashing fields)
    (hfree : Exclusive crypto w (.read n now)) : Moves crypto w (readRecord crypto w n now fields) := by
  have hwanted : (w.phase n).wanted crypto = credentialOf crypto fields := by rw [hp]; rfl
  unfold readRecord
  cases hg : fields.grant with
  | code rawCode redirectUri resource codeVerifier =>
    simp only [credentialOf, hg] at hwanted
    simp only
    split
    · exact moves_answered w n 400
    · rename_i record hrecord
      split
      · exact .take _ hwanted (by simp [stored, hrecord]) (exclusive_free hfree hwanted) rfl rfl rfl
      · exact moves_answered w n 400
  | refresh refreshToken resource scope =>
    simp only [credentialOf, hg] at hwanted
    simp only
    split
    · exact moves_answered w n 400
    · rename_i record hrecord
      split
      · exact .take _ hwanted (by simp [stored, hrecord]) (exclusive_free hfree hwanted) rfl rfl rfl
      · exact moves_answered w n 400
  | other => exact moves_answered w n 400

attribute [local simp] step in
theorem step_moves (e : Event) (hfresh : Fresh crypto w e) (hfree : Exclusive crypto w e) :
    Moves crypto w (step crypto config w e) := by
  cases e with
  | request fields => exact .request fields
  | client n =>
    simp only [step]
    split
    · rename_i fields hp
      split
      · exact moves_answered w n 400
      · refine .goto w.server rfl ?_
        rw [hp]
        exact ⟨fun c h => h, nofun, nofun⟩
    · exact .stay
  | read n now =>
    simp only [step]
    split
    · exact readRecord_moves ‹_› hfree
    · exact .stay
  | verify n =>
    simp only [step]
    split
    · rename_i codeVerifier record credential hp
      split
      · refine .goto w.server rfl ?_
        rw [hp]
        exact ⟨fun c h => h, fun c h => h, nofun⟩
      · exact moves_answered w n 400
    · exact .stay
  | version n =>
    simp only [step]
    split
    · rename_i resource scope record credential hp
      split
      · exact moves_answered w n 400
      · refine .goto w.server rfl ?_
        rw [hp]
        exact ⟨fun c h => h, fun c h => h, nofun⟩
    · exact .stay
  | delete n now =>
    simp only [step]
    split
    · rename_i granted credential hp
      exact .delete credential (by rw [hp]; rfl) rfl rfl rfl
    · exact .stay
  | sign n =>
    simp only [step]
    split
    · rename_i granted now credential hp
      have hstorage := hmacKey_storage crypto config w.server
      split
      · rename_i server hkey
        rw [hkey] at hstorage
        exact .goto server hstorage (narrows_answered _ 500)
      · rename_i key server hkey
        rw [hkey] at hstorage
        refine .goto server hstorage ?_
        rw [hp]
        exact ⟨fun c h => h, nofun, fun c h => h⟩
    · exact .stay
  | stamp n =>
    simp only [step]
    split
    · rename_i granted now credential hp
      refine .goto w.server rfl ?_
      rw [hp]
      exact ⟨fun c h => h, nofun, fun c h => h⟩
    · exact .stay
  | store n token =>
    simp only [step]
    split
    · rename_i record credential hp
      exact .store credential token record (by rw [hp]; rfl) hfresh
    · exact .stay

variable (crypto) in
structure Inv (w : World) : Prop where
  known : ∀ n c, (w.phase n).named crypto = some c → c ∈ w.presented
  alone : ∀ m n c, (w.phase m).held = some c → (w.phase n).held = some c → m = n
  spender : ∀ m n c, (w.phase m).spending = some c → (w.phase n).spending = some c → m = n
  gone : ∀ n c, (w.phase n).spending = some c → stored w.server.storage c = false ∧
    ∀ m, (w.phase m).held ≠ some c
  spent : ∀ c ∈ w.issued, c ∈ w.presented ∧ stored w.server.storage c = false ∧
    ∀ n, (w.phase n).held ≠ some c ∧ (w.phase n).spending ≠ some c
  once : w.issued.Nodup

theorem phase_goto_cases (w : World) (n : ℕ) (q : Phase) (m : ℕ) :
    (m = n ∧ (w.goto n q).phase m = q) ∨ (w.goto n q).phase m = w.phase m := by
  by_cases hm : m = n
  · subst hm
    by_cases hn : m < w.requests.length
    · exact .inl ⟨rfl, by simp [World.phase, World.goto, hn]⟩
    · refine .inr ?_
      rw [World.goto, List.set_eq_of_length_le (Nat.le_of_not_lt hn)]
  · exact .inr (phase_goto_ne hm)

theorem wanted_named {p : Phase} {c : Credential} (h : p.wanted crypto = some c) :
    p.named crypto = some c := by
  cases p <;> first | exact h | cases h

theorem held_named {p : Phase} {c : Credential} (h : p.held = some c) : p.named crypto = some c := by
  cases p <;> first | exact h | cases h

theorem spending_named {p : Phase} {c : Credential} (h : p.spending = some c) :
    p.named crypto = some c := by
  cases p <;> first | exact h | cases h

/-- Where no request takes a credential, nothing is to be shown but that the
named ones are known. -/
theorem inv_narrow {w' : World} (h : Inv crypto w)
    (hknown : ∀ n c, (w'.phase n).named crypto = some c → c ∈ w'.presented)
    (hheld : ∀ n c, (w'.phase n).held = some c → (w.phase n).held = some c)
    (hspending : ∀ n c, (w'.phase n).spending = some c → (w.phase n).spending = some c)
    (hstorage : w'.server.storage = w.server.storage) (hissued : w'.issued = w.issued)
    (hpresented : ∀ c ∈ w.presented, c ∈ w'.presented) : Inv crypto w' where
  known := hknown
  alone m n c hm hn := h.alone m n c (hheld m c hm) (hheld n c hn)
  spender m n c hm hn := h.spender m n c (hspending m c hm) (hspending n c hn)
  gone n c hn := by
    obtain ⟨hstored, hfree⟩ := h.gone n c (hspending n c hn)
    rw [hstorage]
    exact ⟨hstored, fun m hm => hfree m (hheld m c hm)⟩
  spent c hc := by
    rw [hissued] at hc
    obtain ⟨hmem, hstored, hfree⟩ := h.spent c hc
    rw [hstorage]
    exact ⟨hpresented c hmem, hstored, fun n =>
      ⟨fun hn => (hfree n).1 (hheld n c hn), fun hn => (hfree n).2 (hspending n c hn)⟩⟩
  once := by
    rw [hissued]
    exact h.once

theorem inv_goto {n : ℕ} {q : Phase} {server : Server} (h : Inv crypto w)
    (hstorage : server.storage = w.server.storage) (hq : Narrows crypto (w.phase n) q) :
    Inv crypto ({ w with server }.goto n q) := by
  have hcases := phase_goto_cases { w with server } n q
  refine inv_narrow h ?_ ?_ ?_ hstorage rfl (fun c hc => hc)
  · intro m c hc
    rcases hcases m with ⟨rfl, hm⟩ | hm
    · rw [hm] at hc
      exact h.known m c (hq.named c hc)
    · rw [hm] at hc
      exact h.known m c hc
  · intro m c hc
    rcases hcases m with ⟨rfl, hm⟩ | hm
    · rw [hm] at hc
      exact hq.held c hc
    · rw [hm] at hc
      exact hc
  · intro m c hc
    rcases hcases m with ⟨rfl, hm⟩ | hm
    · rw [hm] at hc
      exact hq.spending c hc
    · rw [hm] at hc
      exact hc

theorem phase_append (w : World) (p : Phase) (presented : List Credential) (n : ℕ) :
    { w with requests := w.requests ++ [p], presented := presented }.phase n = p ∨
      { w with requests := w.requests ++ [p], presented := presented }.phase n = w.phase n := by
  simp only [World.phase, List.getD_eq_getElem?_getD]
  rcases Nat.lt_trichotomy n w.requests.length with hn | rfl | hn
  · right
    rw [List.getElem?_append_left hn]
  · left
    simp
  · right
    rw [List.getElem?_eq_none (by simp; omega), List.getElem?_eq_none (by omega)]

theorem inv_request (h : Inv crypto w) (fields : TokenFields) :
    Inv crypto { w with
      requests := w.requests ++ [.looking fields]
      presented := w.presented ++ (credentialOf crypto fields).toList } := by
  have hcases := phase_append w (.looking fields) (w.presented ++ (credentialOf crypto fields).toList)
  refine inv_narrow h ?_ ?_ ?_ rfl rfl (fun c hc => List.mem_append_left _ hc)
  · intro n c hc
    rcases hcases n with hn | hn
    · rw [hn] at hc
      exact List.mem_append_right _ (Option.mem_toList.mpr hc)
    · rw [hn] at hc
      exact List.mem_append_left _ (h.known n c hc)
  · intro n c hc
    rcases hcases n with hn | hn
    · rw [hn] at hc
      cases hc
    · rw [hn] at hc
      exact hc
  · intro n c hc
    rcases hcases n with hn | hn
    · rw [hn] at hc
      cases hc
    · rw [hn] at hc
      exact hc

/-- A record that is there is nobody's yet, if nobody holds it. -/
theorem inv_take {n : ℕ} {q : Phase} {c : Credential} (h : Inv crypto w)
    (hp : (w.phase n).wanted crypto = some c) (hstored : stored w.server.storage c = true)
    (hfree : ∀ m, (w.phase m).held ≠ some c) (hheld : q.held = some c) (hspending : q.spending = none)
    (hnamed : q.named crypto = some c) : Inv crypto (w.goto n q) := by
  have hcases := phase_goto_cases w n q
  have hheldCases : ∀ m d, ((w.goto n q).phase m).held = some d →
      (m = n ∧ d = c) ∨ (w.phase m).held = some d := by
    intro m d hd
    rcases hcases m with ⟨rfl, hm⟩ | hm
    · rw [hm, hheld] at hd
      exact .inl ⟨rfl, (Option.some.inj hd).symm⟩
    · rw [hm] at hd
      exact .inr hd
  have hspendingCases : ∀ m d, ((w.goto n q).phase m).spending = some d → (w.phase m).spending = some d := by
    intro m d hd
    rcases hcases m with ⟨rfl, hm⟩ | hm
    · rw [hm, hspending] at hd
      cases hd
    · rw [hm] at hd
      exact hd
  refine ⟨?_, ?_, fun m k d hm hk => h.spender m k d (hspendingCases m d hm) (hspendingCases k d hk), ?_, ?_,
    h.once⟩
  · intro m d hd
    rcases hcases m with ⟨rfl, hm⟩ | hm
    · rw [hm, hnamed] at hd
      cases hd
      exact h.known m c (wanted_named hp)
    · rw [hm] at hd
      exact h.known m d hd
  · intro m k d hm hk
    rcases hheldCases m d hm with ⟨rfl, rfl⟩ | hm'
    · rcases hheldCases k d hk with ⟨rfl, _⟩ | hk'
      · rfl
      · exact absurd hk' (hfree k)
    · rcases hheldCases k d hk with ⟨rfl, rfl⟩ | hk'
      · exact absurd hm' (hfree m)
      · exact h.alone m k d hm' hk'
  · intro m d hm
    obtain ⟨hgone, hnone⟩ := h.gone m d (hspendingCases m d hm)
    refine ⟨hgone, ?_⟩
    intro k hk
    rcases hheldCases k d hk with ⟨_, rfl⟩ | hk
    · rw [hstored] at hgone
      cases hgone
    · exact hnone k hk
  · intro d hd
    obtain ⟨hmem, hgone, hnone⟩ := h.spent d hd
    refine ⟨hmem, hgone, ?_⟩
    intro m
    refine ⟨?_, fun hm => (hnone m).2 (hspendingCases m d hm)⟩
    intro hm
    rcases hheldCases m d hm with ⟨_, rfl⟩ | hm
    · rw [hstored] at hgone
      cases hgone
    · exact (hnone m).1 hm

theorem stored_deleted (storage : Storage) (c d : Credential) :
    stored (deleteCredential storage c) d = if d = c then false else stored storage d := by
  cases c with
  | code key =>
    cases d with
    | code key' =>
      by_cases hkey : key' = key <;>
        simp [stored, deleteCredential, Storage.deleteCode, hkey]
    | refresh key' => simp [stored, deleteCredential, Storage.deleteCode]
  | refresh key =>
    cases d with
    | code key' => simp [stored, deleteCredential, Storage.deleteRefresh]
    | refresh key' =>
      by_cases hkey : key' = key <;>
        simp [stored, deleteCredential, Storage.deleteRefresh, hkey]

theorem inv_delete {n : ℕ} {q : Phase} {c : Credential} (h : Inv crypto w)
    (hp : (w.phase n).held = some c) (hheld : q.held = none) (hspending : q.spending = some c)
    (hnamed : q.named crypto = some c) :
    Inv crypto ((w.change (deleteCredential · c)).goto n q) := by
  have hactive : w.phase n ≠ .idle := by
    intro hidle
    rw [hidle] at hp
    cases hp
  have hcases := phase_goto_cases (w.change (deleteCredential · c)) n q
  have hheldCases : ∀ m d, (((w.change (deleteCredential · c)).goto n q).phase m).held = some d →
      m ≠ n ∧ (w.phase m).held = some d := by
    intro m d hd
    by_cases hm : m = n
    · subst hm
      rw [phase_goto_self (w := w.change (deleteCredential · c)) hactive, hheld] at hd
      cases hd
    · rw [phase_goto_ne hm] at hd
      exact ⟨hm, hd⟩
  have hspendingCases : ∀ m d, (((w.change (deleteCredential · c)).goto n q).phase m).spending = some d →
      (m = n ∧ d = c) ∨ (w.phase m).spending = some d := by
    intro m d hd
    rcases hcases m with ⟨rfl, hm⟩ | hm
    · rw [hm, hspending] at hd
      exact .inl ⟨rfl, (Option.some.inj hd).symm⟩
    · rw [hm] at hd
      exact .inr hd
  have hstored : ∀ d, stored w.server.storage d = false →
      stored (deleteCredential w.server.storage c) d = false := by
    intro d hd
    rw [stored_deleted, hd]
    split <;> rfl
  refine ⟨?_, fun m k d hm hk => h.alone m k d (hheldCases m d hm).2 (hheldCases k d hk).2, ?_, ?_,
    ?_, h.once⟩
  · intro m d hd
    rcases hcases m with ⟨rfl, hm⟩ | hm
    · rw [hm, hnamed] at hd
      cases hd
      exact h.known m c (held_named hp)
    · rw [hm] at hd
      exact h.known m d hd
  · intro m k d hm hk
    rcases hspendingCases m d hm with ⟨rfl, rfl⟩ | hm'
    · rcases hspendingCases k d hk with ⟨rfl, _⟩ | hk'
      · rfl
      · exact absurd hp ((h.gone k d hk').2 m)
    · rcases hspendingCases k d hk with ⟨rfl, rfl⟩ | hk'
      · exact absurd hp ((h.gone m d hm').2 k)
      · exact h.spender m k d hm' hk'
  · intro m d hm
    rcases hspendingCases m d hm with ⟨rfl, rfl⟩ | hm
    · refine ⟨by rw [World.goto, World.change]; simp [stored_deleted], ?_⟩
      intro k hk
      obtain ⟨hne, hk⟩ := hheldCases k d hk
      exact hne (h.alone k m d hk hp)
    · obtain ⟨hgone, hnone⟩ := h.gone m d hm
      exact ⟨hstored d hgone, fun k hk => hnone k (hheldCases k d hk).2⟩
  · intro d hd
    obtain ⟨hmem, hgone, hnone⟩ := h.spent d hd
    refine ⟨hmem, hstored d hgone, ?_⟩
    intro m
    refine ⟨fun hm => (hnone m).1 (hheldCases m d hm).2, ?_⟩
    intro hm
    rcases hspendingCases m d hm with ⟨_, rfl⟩ | hm
    · exact (hnone n).1 hp
    · exact (hnone m).2 hm

theorem stored_refreshed (storage : Storage) (token : String) (record : RefreshTokenRecord) {c : Credential}
    (hc : c ≠ .refresh (crypto.sha256Base64Url ("refresh-" ++ token))) :
    stored (storeRefresh crypto storage token record) c = stored storage c := by
  cases c with
  | code key => rfl
  | refresh key =>
    have hkey : key ≠ crypto.sha256Base64Url ("refresh-" ++ token) := fun heq => hc (by rw [heq])
    simp [stored, storeRefresh, Function.update_of_ne hkey]

theorem inv_store {n : ℕ} {c : Credential} {token : String} {record : RefreshTokenRecord} (h : Inv crypto w)
    (hp : (w.phase n).spending = some c)
    (hfresh : Credential.refresh (crypto.sha256Base64Url ("refresh-" ++ token)) ∉ w.presented) :
    Inv crypto { (w.change (storeRefresh crypto · token record)).goto n (.answered 200) with
      issued := w.issued ++ [c] } := by
  have hactive : w.phase n ≠ .idle := by
    intro hidle
    rw [hidle] at hp
    cases hp
  have hphase : ∀ m, ({ (w.change (storeRefresh crypto · token record)).goto n (.answered 200) with
      issued := w.issued ++ [c] } : World).phase m = if m = n then .answered 200 else w.phase m := by
    intro m
    by_cases hm : m = n
    · subst hm
      rw [if_pos rfl]
      exact phase_goto_self (w := w.change (storeRefresh crypto · token record)) hactive
    · rw [if_neg hm]
      exact phase_goto_ne (w := w.change (storeRefresh crypto · token record)) hm
  have hstored : ∀ d ∈ w.presented, stored w.server.storage d = false →
      stored (storeRefresh crypto w.server.storage token record) d = false := by
    intro d hd hgone
    rw [stored_refreshed _ _ _ (fun heq => hfresh (heq ▸ hd))]
    exact hgone
  have hrest : ∀ (f : Phase → Option Credential), f (.answered 200) = none → ∀ m d,
      f (if m = n then .answered 200 else w.phase m) = some d → m ≠ n ∧ f (w.phase m) = some d := by
    intro f hf m d hd
    split at hd
    · rw [hf] at hd
      cases hd
    · exact ⟨‹_›, hd⟩
  have hheld := hrest Phase.held rfl
  have hspending := hrest Phase.spending rfl
  refine ⟨?_, ?_, ?_, ?_, ?_, ?_⟩
  · intro m d hd
    rw [hphase] at hd
    exact h.known m d (hrest (Phase.named crypto) rfl m d hd).2
  · intro m k d hm hk
    rw [hphase] at hm hk
    exact h.alone m k d (hheld m d hm).2 (hheld k d hk).2
  · intro m k d hm hk
    rw [hphase] at hm hk
    exact h.spender m k d (hspending m d hm).2 (hspending k d hk).2
  · intro m d hm
    rw [hphase] at hm
    obtain ⟨_, hm⟩ := hspending m d hm
    obtain ⟨hgone, hnone⟩ := h.gone m d hm
    refine ⟨hstored d (h.known m d (spending_named hm)) hgone, ?_⟩
    intro k hk
    rw [hphase] at hk
    exact hnone k (hheld k d hk).2
  · intro d hd
    rcases List.mem_append.mp hd with hd | hd
    · obtain ⟨hmem, hgone, hnone⟩ := h.spent d hd
      refine ⟨hmem, hstored d hmem hgone, ?_⟩
      intro m
      rw [hphase]
      exact ⟨fun hm => (hnone m).1 (hheld m d hm).2, fun hm => (hnone m).2 (hspending m d hm).2⟩
    · rw [List.mem_singleton.mp hd]
      have hmem := h.known n c (spending_named hp)
      obtain ⟨hgone, hnone⟩ := h.gone n c hp
      refine ⟨hmem, hstored c hmem hgone, ?_⟩
      intro m
      rw [hphase]
      refine ⟨fun hm => hnone m (hheld m c hm).2, ?_⟩
      intro hm
      obtain ⟨hne, hm⟩ := hspending m c hm
      exact hne (h.spender m n c hm hp)
  · apply List.Nodup.append h.once (List.nodup_singleton c)
    intro d hd hc
    rw [List.mem_singleton.mp hc] at hd
    exact ((h.spent c hd).2.2 n).2 hp

theorem inv_initial (server : Server) : Inv crypto (World.initial server) := by
  have hidle : ∀ n, (World.initial server).phase n = .idle := by
    intro n
    simp [World.phase, World.initial]
  refine ⟨?_, ?_, ?_, ?_, ?_, List.nodup_nil⟩
  · intro n c h
    rw [hidle] at h
    cases h
  · intro m n c h
    rw [hidle] at h
    cases h
  · intro m n c h
    rw [hidle] at h
    cases h
  · intro n c h
    rw [hidle] at h
    cases h
  · intro c hc
    cases hc

theorem inv_step {e : Event} (h : Inv crypto w) (hfresh : Fresh crypto w e)
    (hfree : Exclusive crypto w e) : Inv crypto (step crypto config w e) := by
  have hmoves : Moves crypto w (step crypto config w e) := step_moves e hfresh hfree
  generalize step crypto config w e = w' at hmoves ⊢
  cases hmoves with
  | stay => exact h
  | request fields => exact inv_request h fields
  | goto server hstorage hq => exact inv_goto h hstorage hq
  | take c hp hstored hfree hheld hspending hnamed =>
    exact inv_take h hp hstored hfree hheld hspending hnamed
  | delete c hp hheld hspending hnamed => exact inv_delete h hp hheld hspending hnamed
  | store c token record hp hfresh => exact inv_store h hp hfresh

end Invariant

/-- When no record is read while another request holds it, every credential
leads to tokens at most once. -/
theorem credential_single_use (crypto : Crypto) (config : Config) (server : Server) (w : World)
    (h : Reaches (step crypto config) (fun w e => Fresh crypto w e ∧ Exclusive crypto w e)
      (World.initial server) w) (c : Credential) : w.issued.count c ≤ 1 := by
  have hinv : Inv crypto w :=
    h.invariant (inv_initial server) fun w e hw he => inv_step hw he.1 he.2
  exact List.nodup_iff_count_le_one.mp hinv.once c

section Overlapping

/-- One code and one refresh token are outstanding. -/
def plainServer : Server where
  storage := {
    clients := Function.update (fun _ => none) "c" (some ⟨"c", ["https://edge.example/r"]⟩)
    clientCount := 1
    codes := Function.update (fun _ => none) "#code-1"
      (some ⟨"c", "https://edge.example/r", "#v", ["mcp:tools"],
      "https://edge.example/mcp", 300000, some "usr_1"⟩)
    refresh := Function.update (fun _ => none) "#refresh-1"
      (some ⟨"c", ["mcp:tools"], "https://edge.example/mcp", 6000, some "v1", some "usr_1"⟩)
    revoked := fun _ => none
    material := some ⟨"#password", "key of password", some "v1"⟩
    ownerUserId := some "usr_1" }
  hmacKeyPromise := none

def redeemCode : TokenFields :=
  ⟨"c", .code "code-1" (some "https://edge.example/r") (some "https://edge.example/mcp") "v"⟩

def redeemRefresh : TokenFields := ⟨"c", .refresh "refresh-1" none none⟩

/-- Two requests for one credential: both read the record before either
deletes it. -/
def overlapping (fields : TokenFields) : List Event :=
  [.request fields, .request fields, .client 0, .client 1, .read 0 1000, .read 1 1000,
    .verify 0, .verify 1, .version 0, .version 1, .delete 0 1000, .delete 1 1000,
    .sign 0, .sign 1, .stamp 0, .stamp 1, .store 0 "2", .store 1 "3"]

theorem overlapping_requests_issue_twice :
    (∃ w, Reaches (step plainCrypto plainConfig) (Fresh plainCrypto) (World.initial plainServer) w ∧
        w.issued.count (.code "#code-1") = 2) ∧
      ∃ w, Reaches (step plainCrypto plainConfig) (Fresh plainCrypto) (World.initial plainServer) w ∧
        w.issued.count (.refresh "#refresh-1") = 2 := by
  have hcode : Admitted (step plainCrypto plainConfig) (Fresh plainCrypto) (World.initial plainServer)
        (overlapping redeemCode) ∧
      ((overlapping redeemCode).foldl (step plainCrypto plainConfig) (World.initial plainServer)).issued.count
        (.code "#code-1") = 2 := by decide +kernel
  have hrefresh : Admitted (step plainCrypto plainConfig) (Fresh plainCrypto) (World.initial plainServer)
        (overlapping redeemRefresh) ∧
      ((overlapping redeemRefresh).foldl (step plainCrypto plainConfig)
        (World.initial plainServer)).issued.count
        (.refresh "#refresh-1") = 2 := by decide +kernel
  exact ⟨⟨_, Reaches.events .refl hcode.1 rfl, hcode.2⟩, ⟨_, Reaches.events .refl hrefresh.1 rfl, hrefresh.2⟩⟩

/-- The second request comes after the first has deleted the record. -/
def successive : List Event :=
  [.request redeemCode, .request redeemCode, .client 0, .client 1, .read 0 1000, .verify 0, .delete 0 1000,
    .read 1 1000, .sign 0, .stamp 0, .store 0 "2"]

theorem credential_single_use_successive :
    ∃ w, Reaches (step plainCrypto plainConfig)
        (fun w e => Fresh plainCrypto w e ∧ Exclusive plainCrypto w e) (World.initial plainServer) w ∧
      w.issued = [.code "#code-1"] ∧ w.phase 1 = .answered 400 ∧
      w.issued.count (.code "#code-1") ≤ 1 := by
  have hrun : Admitted (step plainCrypto plainConfig)
        (fun w e => Fresh plainCrypto w e ∧ Exclusive plainCrypto w e)
          (World.initial plainServer) successive ∧
      (successive.foldl (step plainCrypto plainConfig) (World.initial plainServer)).issued =
        [.code "#code-1"] ∧
      (successive.foldl (step plainCrypto plainConfig) (World.initial plainServer)).phase
          1 = .answered 400 := by
    decide +kernel
  have h : Reaches (step plainCrypto plainConfig)
      (fun w e => Fresh plainCrypto w e ∧ Exclusive plainCrypto w e) (World.initial plainServer)
      (successive.foldl (step plainCrypto plainConfig) (World.initial plainServer)) :=
        Reaches.events .refl hrun.1 rfl
  exact ⟨_, h, hrun.2.1, hrun.2.2, credential_single_use _ _ _ _ h _⟩

end Overlapping

end AccessStack.OAuth.SingleUse
