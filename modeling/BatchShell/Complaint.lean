/-!
# Complaints

The texts with which more than one command fails.
-/
namespace BatchShell.Complaint

def badForm : String := "The syntax of the command is incorrect.\n"

/-- A directory on the way to a file is missing. -/
def pathNotFound : String := "The system cannot find the path specified.\n"

def fileNotFound : String := "The system cannot find the file specified.\n"

def notRecognized (name : String) : String :=
  "'" ++ name ++ "' is not recognized as an internal or external command,\n" ++
    "operable program or batch file.\n"

end BatchShell.Complaint
