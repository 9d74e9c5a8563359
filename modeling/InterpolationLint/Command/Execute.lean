import InterpolationLint.Command.Init
import InterpolationLint.Command.Lint

/-!
# Carrying out commands
-/

namespace InterpolationLint

def Command.execute (command : Command) (readers : ConfigReaders) (color : Bool)
    (tree : FileTree) : CommandResult :=
  match command with
  | .lint request => request.execute readers color tree
  | .rules => ⟨CommandResult.success, ruleTable color, "", tree⟩
  | .init output => executeInit output tree

end InterpolationLint
