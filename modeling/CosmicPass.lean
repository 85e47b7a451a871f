import CosmicPass.Proof.CopySlot
import CosmicPass.Cache.Store
import CosmicPass.Library.Json
import CosmicPass.Pass.Parse
import CosmicPass.Proof.AccountEnd
import CosmicPass.Proof.ActionRows
import CosmicPass.Proof.Admission
import CosmicPass.Proof.Arrivals
import CosmicPass.Proof.Captions
import CosmicPass.Proof.Chords
import CosmicPass.Proof.Classification
import CosmicPass.Proof.CommandLines
import CosmicPass.Proof.Confirmation
import CosmicPass.Proof.DebouncedSave
import CosmicPass.Proof.DiskRegister
import CosmicPass.Proof.EditorKeys
import CosmicPass.Proof.Envelope
import CosmicPass.Proof.EscapeKey
import CosmicPass.Proof.Failures
import CosmicPass.Proof.FetchMarker
import CosmicPass.Proof.FieldValue
import CosmicPass.Proof.FirstListing
import CosmicPass.Proof.Fragments
import CosmicPass.Proof.Hidden
import CosmicPass.Proof.Highlight
import CosmicPass.Proof.KeptFields
import CosmicPass.Proof.Listings
import CosmicPass.Proof.LoginLink
import CosmicPass.Proof.LoginStream
import CosmicPass.Proof.NewestCopy
import CosmicPass.Proof.NoLeak
import CosmicPass.Proof.Notices
import CosmicPass.Proof.OnScreen
import CosmicPass.Proof.Opening
import CosmicPass.Proof.Panel
import CosmicPass.Proof.PrefsEcho
import CosmicPass.Proof.Printed
import CosmicPass.Proof.Rebinding
import CosmicPass.Proof.Results
import CosmicPass.Proof.RevealedRows
import CosmicPass.Proof.RowPresses
import CosmicPass.Proof.SecretLifetime
import CosmicPass.Proof.Selectors
import CosmicPass.Proof.SessionSlot
import CosmicPass.Proof.ShellRuns
import CosmicPass.Proof.SignIn
import CosmicPass.Proof.SignedOut
import CosmicPass.Proof.StoreDelete
import CosmicPass.Proof.StoreRegister
import CosmicPass.Proof.StoredShortcuts
import CosmicPass.Proof.Timestamps
import CosmicPass.Proof.TitleRuns
import CosmicPass.Proof.UntimedCopy
import CosmicPass.Proof.UsageHistory
import CosmicPass.Proof.UsageRecords
import CosmicPass.Proof.Versions
import CosmicPass.Proof.Waiting
import CosmicPass.Proof.Editor
