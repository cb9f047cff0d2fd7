import Dalvik.Report.Basic
import Dalvik.Text.Tree

/-!
# Views of reports

A method's report as one coloured line, and as a tree of its instructions and try blocks.
-/

namespace Dalvik

/-! ## Colours -/

namespace Color

/-- Ends a colour. -/
def reset : String := "\x1b[0m"
/-- Rejections. -/
def red : String := "\x1b[31m"
/-- Good news. -/
def green : String := "\x1b[32m"
/-- Asides. -/
def gray : String := "\x1b[90m"
/-- Sums. -/
def brightWhite : String := "\x1b[97m"

/-- A text in a colour. -/
def paint (color text : String) : String := color ++ text ++ reset

end Color

namespace MethodReport

/-- The form of the method in views. -/
def name (r : MethodReport) : String := r.className ++ "." ++ r.method ++ ":" ++ r.proto

/-- The verdict on one line. -/
def line (r : MethodReport) : String :=
  let cached := if r.cached then Color.paint Color.gray " (cached)" else ""
  let insns := r.insns
  let allocations := r.newInstances
  if r.accepted then
    Color.paint Color.green "ACCEPT" ++ " " ++ r.name
      ++ s!" insns={insns} new-instances={allocations}" ++ cached ++ "\n"
  else
    Color.paint Color.red "REJECT" ++ " " ++ r.name ++ " [" ++ r.code ++ "] " ++ r.message
      ++ cached ++ "\n"

/-! ## The tree -/

/-- The marks of an instruction, after a space if there are any. -/
def marks (i : ReportInstruction) : String :=
  let words := (if i.branchTarget then ["target"] else []) ++ (if i.inTry then ["try"] else [])
    ++ (if i.gcPoint then ["gc"] else [])
  if words.isEmpty then "" else " " ++ String.intercalate "," words

/-- An address in a tree. -/
def address (n : Int) : String := "0x" ++ Text.hexField 4 n

/-- The node of an instruction. -/
def instructionNode (i : ReportInstruction) : Text.Tree :=
  let width := i.width
  .leaf (address i.offset ++ " " ++ Text.padRight 24 i.name ++ s!" w={width}" ++ marks i)

/-- The node of a handler. -/
def handlerNode (h : CatchHandler) : Text.Tree :=
  let typeIdx := h.typeIdx.toNat
  let source := if h.isCatchAll then "catch-all" else s!"type@{typeIdx}"
  .leaf (source ++ " -> " ++ address h.addr.toNat)

/-- The node of a try block. -/
def tryNode (t : TryBlock) : Text.Tree :=
  .node ("[" ++ address t.start.toNat ++ ", " ++ address t.stop ++ ")")
    (t.handlers.map handlerNode)

/-- The node of the counts. -/
def statsNode (s : ReportStats) : Text.Tree :=
  let instructions := s.instructions
  let payloads := s.payloads
  let targets := s.branchTargets
  let points := s.gcPoints
  .leaf s!"{instructions} instructions, {payloads} payloads, {targets} branch targets, {points} GC points"

/-- The layout of an accepted method, or the reason of a rejection. -/
def tree (r : MethodReport) : Text.Tree :=
  if r.accepted then
    .node r.name ((r.stats.map statsNode).toList
      ++ [.node "instructions" (r.instructions.map instructionNode)]
      ++ (if r.tries.isEmpty then [] else [.node "tries" (r.tries.map tryNode)]))
  else .node r.name [.leaf ("rejected [" ++ r.code ++ "] " ++ r.message)]

end MethodReport

namespace Report

/-- The line that sums a report up. -/
def sumLine (r : Report) : String :=
  let count := r.methods.length
  let accepted := r.accepted
  let rejected := r.rejected
  Color.paint Color.brightWhite s!"{count} methods" ++ s!": {accepted} accepted, {rejected} rejected\n"

end Report

end Dalvik
