import CosmicPass.Cache.Store

/-!
# The cache store is a register

An operation awaited to its end is its task polled with nothing in between. One after the other, such
operations make the store a register that the keyring locks: the file on disk is the last one saved,
under the key in the slot. A file that was saved in another format is the one exception, since reading
it deletes it.
-/

namespace CosmicPass

namespace KeyStore

variable {keys : KeyStore}

theorem key_unavailable (h : keys.unavailable = true) (create : Bool) :
    keys.key create = (.error .unavailable, keys) := by
  simp [key, h]

theorem key_existing (h : keys.unavailable = false) {existing : CacheKey}
    (hslot : keys.slot = some existing) (create : Bool) :
    keys.key create = (.ok existing, keys) := by
  simp [key, h, hslot]

theorem key_create (h : keys.unavailable = false) :
    ∃ created keys', keys.key true = (.ok created, keys') ∧ keys'.slot = some created ∧
      keys'.unavailable = false := by
  cases hslot : keys.slot with
  | none =>
      refine ⟨keys.generateKey,
        { keys with slot := some keys.generateKey, generated := keys.generated + 1 }, ?_, rfl, h⟩
      simp [key, h, hslot]
  | some existing => exact ⟨existing, keys, key_existing h hslot true, hslot, h⟩

theorem key_false_snd (keys : KeyStore) : (keys.key false).2 = keys := by
  unfold key
  split
  · rfl
  · split <;> rfl

end KeyStore

namespace CacheStore

variable {s : CacheStore}

theorem load_keys (s : CacheStore) : s.load.2.keys = s.keys := by
  have hkeys := s.keys.key_false_snd
  unfold load
  split
  · rfl
  · split <;> rename_i heq <;> rw [heq] at hkeys
    · split <;> exact hkeys
    · exact hkeys
    · exact hkeys

theorem load_unavailable (h : s.keys.unavailable = true) : s.load = (none, s) := by
  unfold load
  split
  · rfl
  · rw [KeyStore.key_unavailable h]

theorem save_unavailable (h : s.keys.unavailable = true) (file : CacheFile) : s.save file = s := by
  unfold save
  rw [KeyStore.key_unavailable h]

/-- A task polled again and again, with no other task in between. -/
def pollToEnd : Nat → CacheStore → CacheTask → CacheStore
  | 0, s, _ => s
  | fuel + 1, s, task =>
      match s.poll task with
      | some (s, next) => pollToEnd fuel s next
      | none => s

theorem save_eq_pollToEnd (s : CacheStore) (file : CacheFile) :
    s.save file = pollToEnd 3 s (.key file) := by
  simp only [save, pollToEnd, poll]
  split <;> rfl

theorem deleteAll_eq_pollToEnd (s : CacheStore) : s.deleteAll = pollToEnd 3 s .clear := rfl

/-- The store follows the register: the file is what it holds, under the key in the slot. A file that
is gone though the register still holds it was of another format. -/
structure Follows (s : CacheStore) (r : Register CacheFile) : Prop where
  locked : s.keys.unavailable = r.locked
  present : ∀ cache, s.file = some cache →
    r.content = some cache.file ∧ s.keys.slot = some cache.key
  gone : s.file = none → ∀ file, r.content = some file → file.formatVersion ≠ cacheFormatVersion

theorem Follows.load_eq_some_iff {r : Register CacheFile} (h : s.Follows r)
    (hopen : s.keys.unavailable = false) (file : CacheFile) :
    s.load.1 = some file ↔ file.formatVersion = cacheFormatVersion ∧ r.content = some file := by
  cases hfile : s.file with
  | none =>
      have hload : s.load.1 = none := by simp [load, hfile]
      rw [hload]
      exact iff_of_false (by simp) fun ⟨hversion, hheld⟩ => h.gone hfile file hheld hversion
  | some cache =>
      obtain ⟨hheld, hslot⟩ := h.present cache hfile
      simp only [load, hfile, KeyStore.key_existing hopen hslot, true_and, hheld, Option.some.injEq]
      split
      next hversion =>
        constructor
        · intro hloaded
          obtain rfl := Option.some.inj hloaded
          exact ⟨hversion, rfl⟩
        · rintro ⟨-, rfl⟩
          rfl
      next hversion =>
        refine iff_of_false (by simp) ?_
        rintro ⟨hversion', rfl⟩
        exact hversion hversion'

theorem Follows.load_snd {r : Register CacheFile} (h : s.Follows r)
    (hopen : s.keys.unavailable = false) : s.load.2 = s ∨
      s.load.2 = { s with file := none } ∧
        ∀ file, r.content = some file → file.formatVersion ≠ cacheFormatVersion := by
  cases hfile : s.file with
  | none => exact Or.inl (by simp [load, hfile])
  | some cache =>
      obtain ⟨hheld, hslot⟩ := h.present cache hfile
      simp only [load, hfile, KeyStore.key_existing hopen hslot, true_and, hheld, Option.some.injEq]
      split
      next => exact Or.inl (by rw [← hfile])
      next hversion =>
        refine Or.inr ⟨rfl, ?_⟩
        rintro _ rfl
        exact hversion

/-- **One operation keeps the store in step with the register.** -/
theorem Follows.perform {r : Register CacheFile} (h : s.Follows r) (op : Register.Op CacheFile) :
    (s.perform op).Follows (r.perform op) := by
  cases op with
  | write file =>
      cases hlocked : s.keys.unavailable with
      | true =>
          have hlost : r.locked = true := h.locked ▸ hlocked
          simpa [CacheStore.perform, save_unavailable hlocked, Register.perform, hlost] using h
      | false =>
          have htaken : r.locked = false := h.locked ▸ hlocked
          obtain ⟨key, keys, hkey, hslot, hopen⟩ := KeyStore.key_create hlocked
          simp only [CacheStore.perform, save, hkey, Register.perform, htaken, Bool.false_eq_true,
            if_false]
          refine ⟨hopen, ?_, by simp⟩
          rintro cache hcache
          obtain rfl := Option.some.inj hcache
          exact ⟨rfl, hslot⟩
  | read =>
      cases hlocked : s.keys.unavailable with
      | true => simpa [CacheStore.perform, load_unavailable hlocked, Register.perform] using h
      | false =>
          rcases h.load_snd hlocked with hkept | ⟨hdiscarded, hversion⟩
          · simpa [CacheStore.perform, hkept, Register.perform] using h
          · rw [CacheStore.perform, hdiscarded]
            exact ⟨h.locked, by simp, fun _ => hversion⟩
  | clear => exact ⟨h.locked, by simp [CacheStore.perform, deleteAll], by simp [Register.perform]⟩
  | lock locked => exact ⟨rfl, h.present, h.gone⟩

theorem follows_performAll (keys : KeyStore) (ops : List (Register.Op CacheFile)) :
    ((new none keys).performAll ops).Follows
      (Register.performAll ⟨none, keys.unavailable⟩ ops) := by
  induction ops using List.reverseRecOn with
  | nil => exact ⟨rfl, by simp [performAll, new], by simp [Register.performAll]⟩
  | append_singleton ops op ih =>
      rw [performAll, List.foldl_append, Register.performAll_append]
      exact ih.perform op

/-- **The cache store is a register guarded by the key.** After any operations on a store that began
without a file: a load while the keyring is available gives the file last saved while it was, if
nothing was deleted since and the file is of this format; while it is not, a load gives nothing and
leaves the store alone, as a save does; and a load never creates a key. -/
theorem store_is_register (keys : KeyStore) (ops : List (Register.Op CacheFile)) :
    (((new none keys).performAll ops).keys.unavailable = false → ∀ file,
      (((new none keys).performAll ops).load.1 = some file ↔
        file.formatVersion = cacheFormatVersion ∧
          Register.LastWrite keys.unavailable ops file)) ∧
    (((new none keys).performAll ops).keys.unavailable = true →
      ((new none keys).performAll ops).load = (none, (new none keys).performAll ops) ∧
        ∀ file, ((new none keys).performAll ops).save file = (new none keys).performAll ops) ∧
    ((new none keys).performAll ops).load.2.keys = ((new none keys).performAll ops).keys := by
  have hfollows := follows_performAll keys ops
  refine ⟨fun hopen file => ?_, fun hlocked => ⟨load_unavailable hlocked, save_unavailable hlocked⟩,
    load_keys _⟩
  rw [hfollows.load_eq_some_iff hopen, Register.content_eq_some_iff]

section Examples

/-- A file saved before the keyring locks is out of reach while it is locked, and back afterwards. -/
example (file : CacheFile) (h : file.formatVersion = cacheFormatVersion) :
    let s := (new none ⟨none, false, 0⟩).performAll [.write file, .lock true, .read]
    s.load.1 = none ∧ (s.perform (.lock false)).load.1 = some file := by
  simp [performAll, perform, save, load, KeyStore.key, KeyStore.generateKey, new, h]

end Examples

end CacheStore

end CosmicPass
