import BatchShell.Text.Case

/-!
# The internal commands

Their names, in any case of the letters.
-/
namespace BatchShell

inductive Builtin where
  | echo | set | setlocal | endlocal | cd | pushd | popd | exit | shift | goto | call | rem
  | pause | type | more | sort | find | findstr | cls | ver | title | verify | doskey
  deriving DecidableEq

namespace Builtin

def name : Builtin → String
  | .echo => "ECHO"
  | .set => "SET"
  | .setlocal => "SETLOCAL"
  | .endlocal => "ENDLOCAL"
  | .cd => "CD"
  | .pushd => "PUSHD"
  | .popd => "POPD"
  | .exit => "EXIT"
  | .shift => "SHIFT"
  | .goto => "GOTO"
  | .call => "CALL"
  | .rem => "REM"
  | .pause => "PAUSE"
  | .type => "TYPE"
  | .more => "MORE"
  | .sort => "SORT"
  | .find => "FIND"
  | .findstr => "FINDSTR"
  | .cls => "CLS"
  | .ver => "VER"
  | .title => "TITLE"
  | .verify => "VERIFY"
  | .doskey => "DOSKEY"

def ofName? (word : String) : Option Builtin :=
  match Text.upper word with
  | "ECHO" => some .echo
  | "SET" => some .set
  | "SETLOCAL" => some .setlocal
  | "ENDLOCAL" => some .endlocal
  | "CD" | "CHDIR" => some .cd
  | "PUSHD" => some .pushd
  | "POPD" => some .popd
  | "EXIT" => some .exit
  | "SHIFT" => some .shift
  | "GOTO" => some .goto
  | "CALL" => some .call
  | "REM" => some .rem
  | "PAUSE" => some .pause
  | "TYPE" => some .type
  | "MORE" => some .more
  | "SORT" => some .sort
  | "FIND" => some .find
  | "FINDSTR" => some .findstr
  | "CLS" | "CLEAR" => some .cls
  | "VER" => some .ver
  | "TITLE" => some .title
  | "VERIFY" => some .verify
  | "DOSKEY" => some .doskey
  | _ => none

end Builtin

end BatchShell
