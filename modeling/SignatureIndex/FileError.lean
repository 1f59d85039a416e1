/-! Why a file tree refuses an access. -/
namespace SignatureIndex

/-- Why what is there cannot be used: it is not permitted, or the device fails. -/
inductive Refusal where
  | permission
  | device
  deriving DecidableEq, Repr

inductive FileError where
  | notFound
  | alreadyExists
  | notDirectory
  | isDirectory
  | nameTooLong
  | tooManyLinks
  | invalidArgument
  | refused (refusal : Refusal)
  deriving DecidableEq, Repr

namespace FileError

def number : FileError → Nat
  | notFound => 2
  | refused .device => 5
  | refused .permission => 13
  | alreadyExists => 17
  | notDirectory => 20
  | isDirectory => 21
  | invalidArgument => 22
  | nameTooLong => 36
  | tooManyLinks => 40

def words : FileError → String
  | notFound => "No such file or directory"
  | refused .device => "Input/output error"
  | refused .permission => "Permission denied"
  | alreadyExists => "File exists"
  | notDirectory => "Not a directory"
  | isDirectory => "Is a directory"
  | invalidArgument => "Invalid argument"
  | nameTooLong => "File name too long"
  | tooManyLinks => "Too many levels of symbolic links"

def message (error : FileError) : String :=
  "[Errno " ++ toString error.number ++ "] " ++ error.words

end FileError

end SignatureIndex
