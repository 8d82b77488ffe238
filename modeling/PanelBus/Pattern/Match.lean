import PanelBus.Pattern.Basic
import PanelBus.Expr.Engine
/-!
# Matching patterns with guards

The order is fixed: the comparison of octets, its inversion, the guard, then the exceptions from
left to right up to the first that matches.  Each step is taken only if the ones before it allow a
match, so a guard behind a failed comparison calls no host function.
-/

namespace PanelBus

open Json (Fields)

/-- What a match depends on besides the pattern and the frame. -/
structure MatchContext where
  /-- The length of the frame header, from which offsets count. -/
  base : Nat := 0
  /-- Whether a pattern without octets may match. -/
  allowEmpty : Bool := false
  /-- The device state that guards see. -/
  state : Fields := []
  /-- The host functions that guards may call. -/
  hosts : NameMap Expr.HostFunction := []

namespace Pattern

/-- The comparison of octets with its inversion.  A pattern without octets counts as fitting where
it is allowed, and otherwise fails whatever its inversion. -/
def compares (ctx : MatchContext) (frame : Bytes) (pattern : Pattern) : Bool :=
  if pattern.data.isEmpty then ctx.allowEmpty && !pattern.inverted
  else pattern.fits frame ctx.base != pattern.inverted

mutual

/-- Whether the pattern matches the frame. -/
def matchesFrame (ctx : MatchContext) (frame : Bytes) : Pattern → Expr.SessionM Bool
  | ⟨offset, data, mask?, inverted, guard?, except⟩ => do
    if !compares ctx frame ⟨offset, data, mask?, inverted, guard?, except⟩ then return false
    let guarded ← match guard? with
      | none => pure true
      | some source => Expr.evalGuard source (.ofFrame frame ctx.state ctx.hosts)
    if !guarded then return false
    return !(← anyMatches ctx frame except)

/-- Whether one of the patterns matches the frame; those behind the first that does are not looked
at. -/
def anyMatches (ctx : MatchContext) (frame : Bytes) : List Pattern → Expr.SessionM Bool
  | [] => return false
  | pattern :: rest => do
    if ← matchesFrame ctx frame pattern then return true
    anyMatches ctx frame rest

end

end Pattern

end PanelBus
