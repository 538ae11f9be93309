import SourcePress.Text.Edition

/-!
# Platforms

What the place decides where the library runs: the alphabet, and how deep nested values are
followed. A nesting that is too deep is a fault of its own, wherever the limit lies.
-/

namespace SourcePress

/-- What the library takes from the place where it runs. -/
class Platform extends Alphabet where
  /-- How deep containers may be nested in a text that is read. -/
  maxDepth : Nat
  /-- How deep containers may be nested in a value that is spelled in a message. -/
  maxSpelledDepth : Nat

namespace Platform

/-- A platform with the edition 14.0 that follows nine hundred containers. -/
scoped instance usual : Platform := { Alphabet.edition14 with maxDepth := 900, maxSpelledDepth := 900 }

end Platform

end SourcePress
