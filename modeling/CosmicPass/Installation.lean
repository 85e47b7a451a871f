import CosmicPass.Cache.Store
import CosmicPass.Runtime

/-!
# One process after another

The reducer among its effects, beside the cache store that carries out three of them, as
`src/runtime.rs` puts the two together. A process may end at any point; its tasks and its queue end
with it, and the next one finds the file and the keyring as they are then.
-/

namespace CosmicPass

def CacheFile.listing (file : CacheFile) : Listing := { vaults := file.vaults, items := file.items }

/-- What a load does when it is next polled. -/
inductive LoadTask where
  | read
  /-- It asks for the key of what it read. -/
  | key (cache : SealedCache)
  | remove
  | done (file : Option CacheFile)
deriving DecidableEq

namespace CacheStore

/-- One poll of a load. -/
def pollLoad (s : CacheStore) : LoadTask → Option (CacheStore × LoadTask)
  | .read =>
      match s.file with
      | none => some (s, .done none)
      | some cache => some (s, .key cache)
  | .key cache =>
      match s.keys.key false with
      | (.ok key, keys) =>
          if cache.key = key ∧ cache.file.formatVersion = cacheFormatVersion then
            some ({ s with keys }, .done (some cache.file))
          else some ({ s with keys }, .remove)
      | (.error .unavailable, keys) => some ({ s with keys }, .done none)
      | (.error .missing, keys) => some ({ s with keys }, .remove)
  -- Whatever file there is by now.
  | .remove => some ({ s with file := none }, .done none)
  | .done _ => none

/-- A file that cannot be read, or removed, is logged. -/
def failedLoad : LoadTask → Option LoadTask
  | .read | .remove => some (.done none)
  | _ => none

end CacheStore

structure Installation where
  world : World
  store : CacheStore
  /-- The loads of this process, each with the number of its effect. -/
  loads : List (Nat × LoadTask)
  /-- The listings that any process was given, each with when. -/
  arrivals : List (Int × Listing)
deriving DecidableEq

inductive InstallationEvent where
  | world (event : Event)
  | store (event : CacheEvent)
  | load (i : Nat)
  | failLoad (i : Nat)
  /-- A load that is done answers its effect. -/
  | loaded (i : Nat)
  | restart (prefs : Preferences) (account : Option AccountId)
deriving DecidableEq

namespace Installation

/-- The first process; a file that is found then counts as given. -/
def first (prefs : Preferences) (account : Option AccountId) (file : Option SealedCache)
    (keys : KeyStore) : Installation :=
  { world := .start prefs account
    store := .new file keys
    loads := []
    arrivals := file.toList.map fun cache => (cache.file.fetchedAt, cache.file.listing) }

/-- An effect of the reducer that is the store's to carry out. -/
def carryOut (s : Installation) (id : Nat) : Effect → Installation
  | .persist =>
      match s.world.model.cacheSnapshot with
      | some file => { s with store := s.store.spawn (.persist file) }
      | none => s
  | .deleteCache => { s with store := s.store.spawn .clear }
  | .loadCache => { s with loads := s.loads ++ [(id, .read)] }
  | _ => s

/-- The effects asked for in coming to this world are carried out. -/
def advance (s : Installation) (world : World) : Installation :=
  (world.flights.zipIdx.drop s.world.flights.length).foldl
    (fun s flight => s.carryOut flight.2 flight.1.effect) { s with world }

/-- The listing that the event hands to the reducer. -/
def given (s : Installation) : Event → List (Int × Listing)
  | .deliver id now =>
      match s.world.resolved.find? fun done => done.1 = id with
      | some (_, .dataLoaded listing) => [(now, listing)]
      | _ => []
  | _ => []

/-- What goes on in the store on its own. -/
def runs : CacheEvent → Bool
  | .run _ | .fail _ | .unsynced _ | .keyring _ => true
  | _ => false

section Steps

variable [TextSupport]

def step (s : Installation) : InstallationEvent → Option Installation
  | .world (.resolve _ (.cache _)) => none
  | .world event =>
      (s.world.step event).map
        { s with arrivals := s.arrivals ++ s.given event }.advance
  | .store event =>
      if runs event then (s.store.step event).map fun store => { s with store } else none
  | .load i =>
      match s.loads[i]? with
      | none => none
      | some (id, task) =>
          (s.store.pollLoad task).map fun (store, next) =>
            { s with store, loads := s.loads.set i (id, next) }
  | .failLoad i =>
      match s.loads[i]? with
      | none => none
      | some (id, task) =>
          (CacheStore.failedLoad task).map fun next => { s with loads := s.loads.set i (id, next) }
  | .loaded i =>
      match s.loads[i]? with
      | some (id, .done file) =>
          (s.world.step (.resolve id (.cache file))).map fun world => { s with world }
      | _ => none
  | .restart prefs account =>
      some
        { world := .start prefs account
          store := .new s.store.file s.store.keys
          loads := []
          arrivals := s.arrivals }

def system : TransitionSystem Installation InstallationEvent :=
  { init := fun s => ∃ prefs account file keys, s = first prefs account file keys
    step := step }

end Steps

end Installation

end CosmicPass
