import ShellGloss.Node.Basic
import ShellGloss.Painter

/-!
# Painting a leaf

The text that a leaf covers is painted in the role of its kind. An assignment and
a redirect are written anew from what is known of them, each piece in its own role.
-/

namespace ShellGloss

/-- The role of a kind of node. -/
def Kind.role (k : Kind) : Role :=
  .kind k

variable {ε : Type}

/-- An assignment, its two sides painted. -/
def Assignment.paint (p : Painter ε) (a : Assignment) : Except ε String := do
  let name ← p .assignmentName a.name
  let value ← p .assignmentValue a.value
  return name ++ "=" ++ value

/-- A descriptor as a piece of a redirect, nothing when there is none. -/
def paintDescriptor (p : Painter ε) : Option Nat → Except ε String
  | none => .ok ""
  | some fd => p Kind.redirect.role (toString fd)

/-- The target of a redirect: a word, a descriptor, or nothing. -/
def Redirect.paintTarget (p : Painter ε) (r : Redirect) : Except ε String :=
  match r.output with
  | some w => do return " " ++ (← p Kind.word.role w.word)
  | none => paintDescriptor p r.outputFd

/-- A redirect, its pieces painted. -/
def Redirect.paint (p : Painter ε) (r : Redirect) : Except ε String := do
  let input ← paintDescriptor p r.input
  let op ← p Kind.redirect.role r.op.text
  let target ← r.paintTarget p
  return input ++ op ++ target

/-- A leaf that covers `text`, painted. -/
def Node.paint (p : Painter ε) (text : String) : Node → Except ε String
  | assignment a => a.paint p
  | redirect r => r.paint p
  | n => p n.kind.role text

end ShellGloss
