import SourcePress.Text.CodePoint

/-!
# Kinds of content and operations

A text is JSON or JavaScript. Each kind has its operations; only JavaScript can be minified.
-/

namespace SourcePress

/-- The kind of a text. -/
inductive ContentKind where
  /-- JSON, strict or lenient. -/
  | json
  /-- JavaScript. -/
  | javascript
  deriving DecidableEq, Repr

namespace ContentKind

/-- All kinds. -/
def all : List ContentKind := [json, javascript]

/-- The short name by which a kind is asked for. -/
def name : ContentKind → String
  | json => "json"
  | javascript => "js"

/-- The name of a kind in full. -/
def fullName : ContentKind → String
  | json => "JSON"
  | javascript => "JAVASCRIPT"

/-- The kind with a short name. -/
def ofName? (t : Text) : Option ContentKind := all.find? fun k => Text.ofString k.name = t

end ContentKind

/-- What is done with a text. -/
inductive Operation where
  /-- Needless characters are left out. -/
  | compress
  /-- The text is laid out. -/
  | format
  /-- The text is checked. -/
  | validate
  /-- The text is compressed onto one line. -/
  | minify
  deriving DecidableEq, Repr

namespace Operation

/-- All operations. -/
def all : List Operation := [compress, format, validate, minify]

/-- The short name by which an operation is asked for. -/
def name : Operation → String
  | compress => "compress"
  | format => "format"
  | validate => "validate"
  | minify => "minify"

/-- The name of an operation in full. -/
def fullName : Operation → String
  | compress => "COMPRESS"
  | format => "FORMAT"
  | validate => "VALIDATE"
  | minify => "MINIFY"

/-- The operation with a short name. -/
def ofName? (t : Text) : Option Operation := all.find? fun o => Text.ofString o.name = t

/-- True of the operations that a kind of content has. -/
def isFor (kind : ContentKind) (o : Operation) : Bool :=
  match kind, o with
  | .json, minify => false
  | _, _ => true

end Operation

end SourcePress
