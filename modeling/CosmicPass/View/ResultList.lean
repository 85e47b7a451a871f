import CosmicPass.View.List
import CosmicPass.View.Status

/-!
# The result list

`view` of `src/app/view/list.rs`: the search field with its spinner, the caption lines, and the rows
or what is said in their place. Size, colour and layout are left out.
-/

namespace CosmicPass

def iconName : ItemKind → String
  | .login => "dialog-password-symbolic"
  | .note => "x-office-document-symbolic"
  | .creditCard => "payment-card-symbolic"
  | .identity => "contact-new-symbolic"
  | .alias => "mail-forward-symbolic"
  | .wifi => "network-wireless-symbolic"
  | .sshKey => "utilities-terminal-symbolic"
  | .custom | .unknown _ => "emblem-documents-symbolic"

structure ListRow where
  icon : String
  title : List (List Char × Bool)
  subtitle : Option String
  /-- A copy from here is under way. -/
  pending : Bool
  vaultName : String
  selected : Bool
  message : Message
deriving DecidableEq

structure ResultList where
  query : String
  refreshing : Bool
  notices : List String
  /-- Said in place of the rows. -/
  placeholder : Option String
  rows : List ListRow
deriving DecidableEq

namespace Model

def listRow (m : Model) (hit : ResultRow) (i : Nat) (item : ItemSummary) : ListRow :=
  { icon := iconName item.kind
    title := titleSpans item hit.titleIndices
    subtitle := item.subtitle
    pending := m.view.pending.any fun p => p.key = item.key
    vaultName := item.vaultName
    selected := i = m.view.selected
    message := .rowPressed i }

/-- A row of an item that is not held is left out. -/
def listRows (m : Model) : List ListRow :=
  m.view.results.zipIdx.filterMap fun (hit, i) =>
    m.data.items[hit.item]?.map fun item => m.listRow hit i item

def resultList (m : Model) : ResultList :=
  { query := m.view.query
    refreshing := m.data.refreshing
    notices := m.notices
    placeholder :=
      if m.view.results = [] then
        some (if m.data.items = [] ∧ m.data.refreshing then "Loading items…" else "No items found")
      else none
    rows := m.listRows }

end Model

end CosmicPass
