import CosmicPass.Pass.Backend

/-!
# Command lines told apart

A share, an item and a field may be called anything. Each is written after the `=` of its option, so
none of them is an argument of its own, and two requests never have the same command line.
-/

namespace CosmicPass

/-- The arguments that are the same for every share, item and field. -/
def ownArguments : List String :=
  ["--version", "info", "vault", "item", "list", "view", "totp", "login", "--output", "json",
    "--show-secrets"]

theorem ItemKey.eq_of_ids {key key' : ItemKey} (hshare : key.share.id = key'.share.id)
    (hitem : key.item.id = key'.item.id) : key = key' := by
  obtain ⟨⟨_⟩, ⟨_⟩⟩ := key
  obtain ⟨⟨_⟩, ⟨_⟩⟩ := key'
  simp_all

theorem idArgs_injective : Function.Injective idArgs := by
  intro key key' h
  simp only [idArgs, List.cons.injEq, String.append_right_inj, and_true] at h
  exact ItemKey.eq_of_ids h.1 h.2

namespace Request

/-- The options that a request gives a value, with the value. -/
def values : Request → List (String × String)
  | .version | .info | .vaultList | .login => []
  | .itemList share => [("--share-id=", share.id)]
  | .itemView key field =>
      [("--share-id=", key.share.id), ("--item-id=", key.item.id), ("--field=", field)]
  | .itemTotp key => [("--share-id=", key.share.id), ("--item-id=", key.item.id)]

section Argv

attribute [local simp] argv Argv.version Argv.info Argv.vaultList Argv.itemList Argv.itemView
  Argv.itemTotp Argv.login

theorem argv_injective : Function.Injective argv := by
  intro r r' h
  cases r with
  | itemList share =>
      cases r' <;> simp at h
      exact congrArg itemList (congrArg ShareId.mk h)
  | itemView key field =>
      cases r' <;> simp at h
      next key' field' =>
        -- The share, the item and the field each follow an option of their own.
        have hparts : idArgs key = idArgs key' ∧ field = field' := by simpa [idArgs] using h
        rw [idArgs_injective hparts.1, hparts.2]
  | itemTotp key =>
      cases r' <;> simp at h
      exact congrArg itemTotp (idArgs_injective h)
  | _ => cases r' <;> simp at h ⊢

/-- **No two requests have the same command line**, whatever shares, items and fields are called. Each
argument is one of the app's own or a value after its option, and each value stands after its option in
one: a name that begins with a dash is never an argument of its own. -/
theorem argv_tells_apart (r : Request) :
    (∀ r' : Request, r'.argv = r.argv → r' = r) ∧
      (∀ arg ∈ r.argv, arg ∈ ownArguments ∨ ∃ named ∈ r.values, arg = named.1 ++ named.2) ∧
      ∀ named ∈ r.values, named.1 ++ named.2 ∈ r.argv := by
  refine ⟨fun r' h => argv_injective h, ?_, ?_⟩
  · cases r <;> simp [idArgs, values, ownArguments]
  · cases r <;> simp [idArgs, values]

end Argv

end Request

end CosmicPass
