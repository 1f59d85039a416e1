/-! Reports: what an operation tells the user. -/
namespace SignatureIndex

inductive NoticeLevel where
  | info
  | warning
  | error
  deriving DecidableEq, Repr

def NoticeLevel.word : NoticeLevel → String
  | info => "info"
  | warning => "warning"
  | error => "error"

structure Notice where
  level : NoticeLevel
  message : String
  deriving DecidableEq, Repr

/-- A script of an archive with its first lines. -/
structure Listing where
  name : String
  lines : List String
  deriving DecidableEq, Repr

/-- The report of an operation. -/
structure Report where
  notices : List Notice
  functions : Nat
  files : Nat
  listings : List Listing
  deriving DecidableEq, Repr

namespace Report

def empty : Report := ⟨[], 0, 0, []⟩

def ok (report : Report) : Bool :=
  !report.notices.any (·.level = .error)

def notify (report : Report) (level : NoticeLevel) (message : String) : Report :=
  { report with notices := report.notices ++ [⟨level, message⟩] }

/-- The notices and counts of a further report added, its listings left out. -/
def add (report other : Report) : Report :=
  { report with
    notices := report.notices ++ other.notices
    functions := report.functions + other.functions
    files := report.files + other.files }

/-- The report without notices that only inform. -/
def withoutInfo (report : Report) : Report :=
  { report with notices := report.notices.filter (·.level ≠ .info) }

end Report

end SignatureIndex
