import CosmicPass.Library.Register
import CosmicPass.Library.TransitionSystem
import CosmicPass.Model

/-!
# The cache store and its tasks

`CacheStore` of `src/cache/store.rs` with the key store of `src/cache/keystore.rs`: the debounced
queue, the file and the key, and the tasks that run on them. A task is named by what it does when it
is next polled, up to its next `await`; tasks are polled in any order.

Sealing is ideal: a file remembers the key it was sealed with. Keys are random, so a generated key is
its number.
-/

namespace CosmicPass

structure CacheKey where
  number : Nat
deriving DecidableEq

inductive KeyState where
  | missing
  | unavailable
deriving DecidableEq

structure KeyStore where
  slot : Option CacheKey
  unavailable : Bool
  generated : Nat
deriving DecidableEq

namespace KeyStore

def generateKey (keys : KeyStore) : CacheKey := ⟨keys.generated⟩

/-- The cache key; created when missing and `create` is set. -/
def key (keys : KeyStore) (create : Bool) : Except KeyState CacheKey × KeyStore :=
  if keys.unavailable then (.error .unavailable, keys)
  else
    match keys.slot with
    | some key => (.ok key, keys)
    | none =>
        if create then
          let key := keys.generateKey
          (.ok key, { keys with slot := some key, generated := keys.generated + 1 })
        else (.error .missing, keys)

def delete (keys : KeyStore) : KeyStore := { keys with slot := none }

end KeyStore

structure SealedCache where
  key : CacheKey
  file : CacheFile
deriving DecidableEq

structure Debounce where
  pending : Option CacheFile := none
  scheduled : Bool := false
deriving DecidableEq

/-- What a task does when it is next polled. -/
inductive CacheTask where
  /-- The future of a `Persist` effect queues the snapshot it was built with. -/
  | persist (file : CacheFile)
  /-- The debounce delay ends, and the queue is taken. -/
  | timer
  /-- A save asks for the key. -/
  | key (file : CacheFile)
  | seal (key : CacheKey) (file : CacheFile)
  | writeAtomic (cache : SealedCache)
  -- `delete_all` empties the queue, removes the file, and deletes the key.
  | clear
  | remove
  | deleteKey
  | finished
deriving DecidableEq

structure CacheStore where
  queue : Debounce
  file : Option SealedCache
  keys : KeyStore
  writes : Nat
  tasks : List CacheTask
deriving DecidableEq

inductive CacheEvent where
  | persist (file : CacheFile)
  | deleteCache
  | save (file : CacheFile)
  | saveDebounced (file : CacheFile)
  | run (id : Nat)
  | fail (id : Nat)
  /-- A save puts the file in place, but cannot sync the directory. -/
  | unsynced (id : Nat)
  | keyring (unavailable : Bool)
deriving DecidableEq

namespace CacheStore

def new (file : Option SealedCache) (keys : KeyStore) : CacheStore :=
  { queue := {}, file, keys, writes := 0, tasks := [] }

def spawn (s : CacheStore) (task : CacheTask) : CacheStore := { s with tasks := s.tasks ++ [task] }

def saveDebounced (s : CacheStore) (file : CacheFile) : CacheStore :=
  if s.queue.scheduled then { s with queue := { s.queue with pending := some file } }
  else spawn { s with queue := { pending := some file, scheduled := true } } .timer

def saveTaken : Option CacheFile → CacheTask
  | some file => .key file
  | none => .finished

/-- One poll of a task: what it does to the store, and what it is to do next. -/
def poll (s : CacheStore) : CacheTask → Option (CacheStore × CacheTask)
  | .persist file => some (s.saveDebounced file, .finished)
  | .timer =>
      some ({ s with queue := { pending := none, scheduled := false } }, saveTaken s.queue.pending)
  | .key file =>
      match s.keys.key true with
      | (.ok key, keys) => some ({ s with keys }, .seal key file)
      -- Does nothing without a keyring (FR-024a).
      | (.error _, keys) => some ({ s with keys }, .finished)
  | .seal key file => some (s, .writeAtomic { key, file })
  | .writeAtomic cache => some ({ s with file := some cache, writes := s.writes + 1 }, .finished)
  | .clear => some ({ s with queue := { s.queue with pending := none } }, .remove)
  | .remove => some ({ s with file := none }, .deleteKey)
  | .deleteKey => some ({ s with keys := s.keys.delete }, .finished)
  | .finished => none

/-- A failure ends a save, and is logged and passed over by `delete_all`. -/
def failed : CacheTask → Option CacheTask
  | .key _ | .seal _ _ | .writeAtomic _ | .deleteKey => some .finished
  | .remove => some .deleteKey
  | _ => none

def step (s : CacheStore) : CacheEvent → Option CacheStore
  | .persist file => some (s.spawn (.persist file))
  | .deleteCache => some (s.spawn .clear)
  | .save file => some (s.spawn (.key file))
  | .saveDebounced file => some (s.saveDebounced file)
  | .run id =>
      match s.tasks[id]? with
      | none => none
      | some task => (s.poll task).map fun (s, next) => { s with tasks := s.tasks.set id next }
  | .fail id =>
      match s.tasks[id]? with
      | none => none
      | some task => (failed task).map fun next => { s with tasks := s.tasks.set id next }
  | .unsynced id =>
      match s.tasks[id]? with
      | some (.writeAtomic cache) =>
          some { s with file := some cache, tasks := s.tasks.set id .finished }
      | _ => none
  | .keyring unavailable => some { s with keys := { s.keys with unavailable } }

def system : TransitionSystem CacheStore CacheEvent :=
  { init := fun s => ∃ file keys, s = new file keys
    step := step }

/-!
### One operation at a time

`load`, `save` and `delete_all` awaited to their end before the next one starts, with no file operation
failing.
-/

/-- Unreadable or incompatible files are deleted, but a file that is merely out of reach is kept
(FR-024a). Never creates a key. -/
def load (s : CacheStore) : Option CacheFile × CacheStore :=
  match s.file with
  | none => (none, s)
  | some cache =>
      match s.keys.key false with
      | (.ok key, keys) =>
          if cache.key = key ∧ cache.file.formatVersion = cacheFormatVersion then
            (some cache.file, { s with keys })
          else (none, { s with keys, file := none })
      | (.error .unavailable, keys) => (none, { s with keys })
      -- Without the key the file can never be read again.
      | (.error .missing, keys) => (none, { s with keys, file := none })

def save (s : CacheStore) (file : CacheFile) : CacheStore :=
  match s.keys.key true with
  | (.ok key, keys) => { s with keys, file := some { key, file }, writes := s.writes + 1 }
  | (.error _, keys) => { s with keys }

def deleteAll (s : CacheStore) : CacheStore :=
  { s with queue := { s.queue with pending := none }, file := none, keys := s.keys.delete }

def perform (s : CacheStore) : Register.Op CacheFile → CacheStore
  | .write file => s.save file
  | .read => s.load.2
  | .clear => s.deleteAll
  | .lock unavailable => { s with keys := { s.keys with unavailable } }

def performAll (s : CacheStore) (ops : List (Register.Op CacheFile)) : CacheStore :=
  ops.foldl perform s

end CacheStore

end CosmicPass
