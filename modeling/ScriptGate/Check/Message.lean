import ScriptGate.Text.Basic

/-!
# The wording of diagnostics

Some messages hold a blank for the thing that they are about. A template is a text with at most one
blank, which is written as a name between braces where templates are listed.

## Main definitions

* `Template`: a message with a blank in it.
* `Template.fill`: the message about one thing.
-/

namespace ScriptGate

/-- A message with one blank. -/
structure Template where
  before : String
  blank : String
  after : String

namespace Template

/-- The message about the thing that the blank stands for. -/
def fill (t : Template) (thing : Text) : Text := t.before ++ thing ++ (t.after : Text)

/-- The template with its blank shown as a name between braces. -/
def text (t : Template) : String := t.before ++ "\x7b" ++ t.blank ++ "\x7d" ++ t.after

end Template

namespace Check

/-- A name that nothing allows. -/
def identifierTemplate : Template := ⟨"unidetified: ", "name", ""⟩

/-- An operator that the policy does not list. -/
def operatorTemplate : Template := ⟨"Unary operator '", "operator", "' is not allowed"⟩

/-- A construct that the checker has no rule for. -/
def unsupportedTemplate : Template := ⟨"Unsupported syntax: ", "kind", ""⟩

/-- A member that is looked up by a computed name. -/
def computedMemberMessage : String := "Computed member expressions are not allowed"

/-- A call of a function by its bare name. -/
def globalCallMessage : String := "global methods are not permitted"

/-- A member that the policy does not list. -/
def memberMessage : String := "unIdentified member property"

/-- A construct below the nesting limit. -/
def nestingMessage : String := "Expression nesting too deep"

end Check

end ScriptGate
