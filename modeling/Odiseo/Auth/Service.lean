import Odiseo.Database.Transition

/-!
# Authorization state in three tiers

`AuthService.getUserAuthState` and `revokeUserTokens` for one user of one company, in
any number of processes. The state comes from the shared cache, from a map of the
process, or from the database; only a database read fills the two caches. The cache
may lose an entry at any time, refuse an operation, or answer it after the caller has
given up. Times are in milliseconds.
-/

namespace Odiseo.Auth

/-- A process of the backend. -/
abbrev ProcessId := ℕ

/-- `User`, as the authorization state reads it. -/
structure UserRow where
  forcePasswordReset : Bool
  tokensValidAfter : Option ℕ
  deriving DecidableEq, Repr

/-- What the database holds about the user: the effective permissions and the row. -/
structure AuthRows where
  permissions : List String
  user : Option UserRow
  deriving DecidableEq, Repr

/-- `CachedAuthState`. -/
structure CachedAuthState where
  permissions : List String
  forcePasswordReset : Bool
  tokensValidAfter : Option ℕ
  deriving DecidableEq, Repr

/-- The state that is built from the permissions and the user that were read. -/
def authState (permissions : List String) (user : Option UserRow) : CachedAuthState :=
  { permissions := permissions
    forcePasswordReset := (user.map (·.forcePasswordReset)).getD false
    tokensValidAfter := user.bind (·.tokensValidAfter) }

/-- The state of the database. -/
def AuthRows.state (db : AuthRows) : CachedAuthState := authState db.permissions db.user

/-- `60 * 1000`: the lifetime of an entry of the shared cache. -/
def sharedTtl : ℕ := 60 * 1000

/-- `LOCAL_CACHE_TTL_MS`. -/
def localCacheTtl : ℕ := 4000

/-- A cached state with the end of its lifetime. -/
structure Entry where
  state : CachedAuthState
  expiresAt : ℕ
  deriving DecidableEq, Repr

/-- `getLocalAuthState`: an expired entry is a miss. -/
def getLocalAuthState (now : ℕ) : Option Entry → Option CachedAuthState
  | none => none
  | some entry => if entry.expiresAt ≤ now then none else some entry.state

/-- How far a call of `getUserAuthState` has come. -/
inductive Stage
  /-- The shared cache has been asked. -/
  | readingCache
  /-- The transaction on the database has been opened. -/
  | readingPermissions
  /-- The permissions were read at `readAt`. -/
  | readingUser (permissions : List String) (readAt : ℕ)
  /-- The state is being written to the shared cache. -/
  | writingCache (state : CachedAuthState) (readAt : ℕ)
  deriving DecidableEq, Repr

/-- A call of `getUserAuthState`. -/
structure AuthCall where
  process : ProcessId
  stage : Stage
  deriving DecidableEq, Repr

/-- How far a call of `revokeUserTokens` has come. -/
inductive RevocationStage
  /-- `new Date()` was taken; the update is under way. -/
  | stamped (stamp : ℕ)
  /-- The update has committed. -/
  | committed
  /-- The shared cache has been asked to delete its entry. -/
  | deleting
  deriving DecidableEq, Repr

/-- A call of `revokeUserTokens`. -/
structure Revocation where
  process : ProcessId
  stage : RevocationStage
  deriving DecidableEq, Repr

/-- A write to the shared cache that may still take effect. -/
structure CacheWrite where
  state : CachedAuthState
  readAt : ℕ
  deriving DecidableEq, Repr

/-- All processes, the shared cache and the database. The last three fields record what
has happened. -/
structure World where
  now : ℕ
  db : AuthRows
  shared : Option Entry
  localAuthStateCache : ProcessId → Option Entry
  calls : List AuthCall
  writes : List CacheWrite
  revocations : List Revocation
  /-- Every moment so far: the time and the database. -/
  moments : List (ℕ × AuthRows)
  /-- The states that calls have returned, with the time of the return. -/
  returned : List (ℕ × CachedAuthState)
  /-- The revocations that have stamped the row of the user: the stamp and the time of
  the commit. -/
  revoked : List (ℕ × ℕ)

/-- Nothing is cached and nothing runs. -/
def World.start (now : ℕ) (db : AuthRows) : World where
  now := now
  db := db
  shared := none
  localAuthStateCache := fun _ => none
  calls := []
  writes := []
  revocations := []
  moments := [(now, db)]
  returned := []
  revoked := []

/-- One step of a process, the cache, the database or the clock. -/
inductive Action
  /-- ℕ passes. -/
  | pass (duration : ℕ)
  /-- Other code changes what the user may do. -/
  | otherWrite (permissions : List String) (forcePasswordReset : Bool)
  /-- `getUserAuthState` is called. -/
  | request (process : ProcessId)
  /-- The shared cache answers with its entry. -/
  | cacheHit (call : ℕ)
  /-- The shared cache has no entry, refuses, or does not answer in time. -/
  | cacheMiss (call : ℕ)
  /-- `findEffectivePermissions`. -/
  | readPermissions (call : ℕ)
  /-- `findOne(User)`; the write to the shared cache is sent. -/
  | readUser (call : ℕ)
  /-- The transaction on the database fails. -/
  | readFails (call : ℕ)
  /-- The write to the shared cache was answered, refused or given up. -/
  | finish (call : ℕ)
  /-- A write to the shared cache takes effect. -/
  | cacheWriteLands (write : ℕ)
  /-- A write to the shared cache is lost. -/
  | cacheWriteLost (write : ℕ)
  /-- The shared cache loses its entry. -/
  | sharedEvicted
  /-- The entry makes room for another one in the map of a process. -/
  | localEvicted (process : ProcessId)
  /-- `revokeUserTokens` is called. -/
  | revoke (process : ProcessId)
  /-- The update of `tokens_valid_after` commits. -/
  | revocationCommits (revocation : ℕ)
  /-- The update of `tokens_valid_after` fails. -/
  | revocationFails (revocation : ℕ)
  /-- `invalidateUserPermissions` clears the map of the process. -/
  | invalidate (revocation : ℕ)
  /-- The deletion in the shared cache takes effect, or fails. -/
  | cacheDelete (revocation : ℕ) (takesEffect : Bool)
  deriving DecidableEq, Repr

namespace World

/-- The map of one process is changed. -/
def setLocal (w : World) (process : ProcessId) (entry : Option Entry) : World :=
  { w with localAuthStateCache := fun p => if p = process then entry else w.localAuthStateCache p }

/-- A call goes on. -/
def setStage (w : World) (i : ℕ) (process : ProcessId) (stage : Stage) : World :=
  { w with calls := w.calls.set i ⟨process, stage⟩ }

/-- A call returns a state. -/
def answer (w : World) (i : ℕ) (state : CachedAuthState) : World :=
  { w with calls := w.calls.eraseIdx i, returned := w.returned ++ [(w.now, state)] }

/-- The first tier answers: an entry is only used during its lifetime. -/
def cacheHit (w : World) (i : ℕ) : Option World :=
  match w.calls[i]?, w.shared with
  | some ⟨_, .readingCache⟩, some entry =>
    if w.now ≤ entry.expiresAt then some (w.answer i entry.state) else none
  | _, _ => none

/-- The second tier, after a miss in the first. -/
def cacheMiss (w : World) (i : ℕ) : Option World :=
  match w.calls[i]? with
  | some ⟨process, .readingCache⟩ =>
    match getLocalAuthState w.now (w.localAuthStateCache process) with
    | some state => some (w.answer i state)
    | none => some ((w.setLocal process none).setStage i process .readingPermissions)
  | _ => none

/-- The first statement of the third tier. -/
def readPermissions (w : World) (i : ℕ) : Option World :=
  match w.calls[i]? with
  | some ⟨process, .readingPermissions⟩ =>
    some (w.setStage i process (.readingUser w.db.permissions w.now))
  | _ => none

/-- The second statement of the third tier, and the write to the first that follows. -/
def readUser (w : World) (i : ℕ) : Option World :=
  match w.calls[i]? with
  | some ⟨process, .readingUser permissions readAt⟩ =>
    let state := authState permissions w.db.user
    some { w.setStage i process (.writingCache state readAt) with
      writes := w.writes ++ [⟨state, readAt⟩] }
  | _ => none

/-- An exception of the database leaves `getUserAuthState`. -/
def readFails (w : World) (i : ℕ) : Option World :=
  match w.calls[i]? with
  | some ⟨_, .readingPermissions⟩ | some ⟨_, .readingUser _ _⟩ =>
    some { w with calls := w.calls.eraseIdx i }
  | _ => none

/-- `setLocalAuthState`, and the return. A call gets here within `delay` of its read. -/
def finish (delay : ℕ) (w : World) (i : ℕ) : Option World :=
  match w.calls[i]? with
  | some ⟨process, .writingCache state readAt⟩ =>
    if w.now ≤ readAt + delay then
      some ((w.setLocal process (some ⟨state, w.now + localCacheTtl⟩)).answer i state)
    else none
  | _ => none

/-- A write to the shared cache takes effect within `delay` of the read. -/
def cacheWriteLands (delay : ℕ) (w : World) (j : ℕ) : Option World :=
  match w.writes[j]? with
  | some ⟨state, readAt⟩ =>
    if w.now ≤ readAt + delay then
      some { w with shared := some ⟨state, w.now + sharedTtl⟩, writes := w.writes.eraseIdx j }
    else none
  | none => none

/-- The update of `tokens_valid_after`; it does nothing when the user is gone. -/
def revocationCommits (w : World) (k : ℕ) : Option World :=
  match w.revocations[k]? with
  | some ⟨process, .stamped stamp⟩ =>
    some { w with
      db := { w.db with
        user := w.db.user.map fun u => { u with tokensValidAfter := some stamp } }
      revocations := w.revocations.set k ⟨process, .committed⟩
      revoked := if w.db.user.isSome then w.revoked ++ [(stamp, w.now)] else w.revoked }
  | _ => none

/-- The failure of the update of `tokens_valid_after`. -/
def revocationFails (w : World) (k : ℕ) : Option World :=
  match w.revocations[k]? with
  | some ⟨_, .stamped _⟩ => some { w with revocations := w.revocations.eraseIdx k }
  | _ => none

/-- The synchronous part of `invalidateUserPermissions`. -/
def invalidate (w : World) (k : ℕ) : Option World :=
  match w.revocations[k]? with
  | some ⟨process, .committed⟩ =>
    some { w.setLocal process none with revocations := w.revocations.set k ⟨process, .deleting⟩ }
  | _ => none

/-- The end of `invalidateUserPermissions`. -/
def cacheDelete (w : World) (k : ℕ) (takesEffect : Bool) : Option World :=
  match w.revocations[k]? with
  | some ⟨_, .deleting⟩ =>
    some { w with
      shared := if takesEffect then none else w.shared
      revocations := w.revocations.eraseIdx k }
  | _ => none

/-- What an action does, when it can happen. -/
def act (delay : ℕ) (w : World) : Action → Option World
  | .pass duration => some { w with now := w.now + duration }
  | .otherWrite permissions forcePasswordReset =>
    some { w with
      db :=
        { permissions := permissions
          user := w.db.user.map fun u => { u with forcePasswordReset := forcePasswordReset } } }
  | .request process => some { w with calls := w.calls ++ [⟨process, .readingCache⟩] }
  | .cacheHit i => w.cacheHit i
  | .cacheMiss i => w.cacheMiss i
  | .readPermissions i => w.readPermissions i
  | .readUser i => w.readUser i
  | .readFails i => w.readFails i
  | .finish i => w.finish delay i
  | .cacheWriteLands j => w.cacheWriteLands delay j
  | .cacheWriteLost j => some { w with writes := w.writes.eraseIdx j }
  | .sharedEvicted => some { w with shared := none }
  | .localEvicted process => some (w.setLocal process none)
  | .revoke process =>
    some { w with revocations := w.revocations ++ [⟨process, .stamped w.now⟩] }
  | .revocationCommits k => w.revocationCommits k
  | .revocationFails k => w.revocationFails k
  | .invalidate k => w.invalidate k
  | .cacheDelete k takesEffect => w.cacheDelete k takesEffect

/-- One step, after which the time and the database are recorded. -/
def step (delay : ℕ) (w : World) (a : Action) : Option World :=
  (w.act delay a).map fun w' => { w' with moments := w'.moments ++ [(w'.now, w'.db)] }

end World

/-- The revocation check of `JwtAuthGuard.canActivate`, in whole seconds. -/
def rejects (state : CachedAuthState) (iat : ℕ) : Bool :=
  match state.tokensValidAfter with
  | some tokensValidAfter => decide (iat < tokensValidAfter / 1000)
  | none => false

end Odiseo.Auth
