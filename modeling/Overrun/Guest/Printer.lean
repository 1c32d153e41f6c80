import Overrun.Guest.SuperBlock

/-! Guest code as text: the temporaries with their types on one line, then a statement a line, then
where the block goes. -/

namespace Overrun.Guest

def Expr.text : Expr → String
  | atom a => a.text
  | get offset ty => s!"GET:{ty}({offset})"
  | load endian ty addr => s!"LD{endian}:{ty}({addr})"
  | unop op arg => s!"{op}({arg})"
  | binop op lhs rhs => s!"{op}({lhs},{rhs})"

instance : ToString Expr := ⟨Expr.text⟩

def EffectKind.text : EffectKind → String
  | read => "RdFX"
  | write => "WrFX"
  | modify => "MoFX"

instance : ToString EffectKind := ⟨EffectKind.text⟩

def MemoryEffect.text (effect : MemoryEffect) : String :=
  s!" {effect.kind}-gst({effect.addr}, {effect.size})"

def Callee.text (callee : Callee) : String :=
  callee.name ++ "\x7b" ++ Text.hex callee.address ++ "\x7d"

/-- A call without a guard is written with one that always holds. -/
def HelperCall.text (call : HelperCall) : String :=
  "DIRTY " ++ (call.guard.getD (.const (.i1 true))).text
    ++ (call.effect.map MemoryEffect.text).getD ""
    ++ " ::: "
    ++ (call.result.map fun t => t.text ++ " = ").getD ""
    ++ call.callee.text
    ++ "(" ++ ",".intercalate (call.args.map Atom.text) ++ ")"

def CompareSwap.text (s : CompareSwap) : String :=
  s!"{s.old} = CAS{s.endian}({s.addr} :: {s.expected} -> {s.data})"

def exitText (ipOffset : UInt32) (target : Atom) (kind : JumpKind) : String :=
  s!"PUT({ipOffset}) = {target}; exit-{kind}"

def Stmt.text : Stmt → String
  | nop => "IR-NoOp"
  | mark address length delta =>
    "------ IMark(" ++ Text.hex address ++ s!", {length}, {delta}) ------"
  | put offset data => s!"PUT({offset}) = {data}"
  | assign temp expr => s!"{temp} = {expr}"
  | store endian addr data => s!"ST{endian}({addr}) = {data}"
  | swap s => s.text
  | call c => c.text
  | fence => "IR-MBusEvent-Fence"
  | exit guard kind target ipOffset =>
    s!"if ({guard}) \x7b " ++ exitText ipOffset target kind ++ " \x7d"

namespace SuperBlock

def tempsText (block : SuperBlock) : String :=
  "   ".intercalate (block.temps.zipIdx.map fun (ty, i) => (Temp.mk i).text ++ ":" ++ ty.text)

def lines (block : SuperBlock) : List String :=
  ["IRSB \x7b", "   " ++ block.tempsText, ""]
    ++ block.stmts.map (fun s => "   " ++ s.text)
    ++ ["   " ++ exitText block.ipOffset block.next block.jump, "\x7d"]

def text (block : SuperBlock) : String :=
  String.join (block.lines.map (· ++ "\n"))

end SuperBlock

end Overrun.Guest
