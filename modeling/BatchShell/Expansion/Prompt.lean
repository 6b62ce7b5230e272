import BatchShell.Ambient

/-!
# Prompts

The codes of a prompt template: a dollar sign and a letter. Unknown codes are dropped, and so is a dollar
sign at the end.
-/
namespace BatchShell.Expansion

def defaultPrompt : String := "$P$G"

def driveLetter (cwd : String) : String :=
  match cwd.toList with
  | c :: ':' :: _ => if c.toNat < 128 then String.singleton c else ""
  | _ => ""

def promptCode (now : Ambient) (cwd : String) (code : Char) : String :=
  match code.toUpper with
  | 'P' => cwd
  | 'G' => ">"
  | 'L' => "<"
  | 'B' => "|"
  | 'Q' => "="
  | 'A' => "&"
  | 'C' => "("
  | 'F' => ")"
  | 'S' => " "
  | '_' => "\n"
  | 'E' => String.singleton (Char.ofNat 27)
  | '$' => "$"
  | 'N' => driveLetter cwd
  | 'D' => now.date
  | 'T' => now.time
  | 'V' => versionBanner
  | _ => ""

/-- Fill in the codes of a template. The code before the last `n` characters is read at the moment `now n`. -/
def promptFrom (now : Nat → Ambient) (cwd : String) : List Char → List Char
  | [] => []
  | ['$'] => []
  | '$' :: code :: cs => (promptCode (now cs.length) cwd code).toList ++ promptFrom now cwd cs
  | c :: cs => c :: promptFrom now cwd cs

def expandPrompt (now : Nat → Ambient) (cwd template : String) : String :=
  String.ofList (promptFrom now cwd template.toList)

end BatchShell.Expansion
