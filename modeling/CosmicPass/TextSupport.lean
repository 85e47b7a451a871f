/-!
# Text functions from outside the repository

The reducer ranks rows with `nucleo-matcher` and compares text with the full-Unicode case mappings
of the standard library. Neither is in the repository, so both are parameters of the model.
-/

namespace CosmicPass

class TextSupport where
  Atom : Type
  /-- `Pattern::new(query, Ignore, Smart, Fuzzy).atoms`. -/
  patternAtoms : String → List Atom
  /-- `Atom::score`: how well the fragment matches a text, if it does. -/
  score : Atom → String → Option UInt16
  /-- `Atom::indices`: the score, and the matched positions of the text. -/
  indices : Atom → String → Option (UInt16 × List UInt32)
  toLowercase : String → String
  toUppercase : String → String

/-- `str::to_ascii_lowercase`. -/
def lowered (text : String) : String := String.ofList (text.toList.map Char.toLower)

end CosmicPass
