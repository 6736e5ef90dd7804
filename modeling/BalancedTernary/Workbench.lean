import BalancedTernary.Assembly.Program
import BalancedTernary.Disassembly.Printer

/-!
# Workbenches

A workbench has a configuration and, after a successful assembly, a current program.
-/

namespace BalancedTernary

open Assembly

structure Workbench where
  config : Config
  program : Option Program

namespace Workbench

/-- Assembles a source text. A fault leaves no current program. -/
def assemble (b : Workbench) (source : Text) : Except LineFault Program × Workbench :=
  let result := Assembly.assemble b.config source
  (result, { b with program := result.toOption })

/-- Disassembles `p` and assembles the text again, which gives the new current program. -/
def reassemble (b : Workbench) (p : Program) : Text × Except LineFault Program × Workbench :=
  let text := Disassembly.disassemble p.image
  (text, b.assemble text)

end Workbench

end BalancedTernary
