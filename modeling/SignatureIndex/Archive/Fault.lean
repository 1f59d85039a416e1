import SignatureIndex.Archive.Inflate
import SignatureIndex.FileError
import SignatureIndex.Text.Quoted

/-! What can be wrong with an archive or one of its entries. -/
namespace SignatureIndex

open Text

inductive ArchiveFault where
  /-- The file cannot be opened. -/
  | file (error : FileError) (path : String)
  /-- No end record is found. -/
  | notArchive
  /-- The archive continues in other files. -/
  | manyDisks
  /-- The directory starts before the file. -/
  | directoryOffset
  /-- The directory ends within an entry. -/
  | directoryTruncated
  /-- An entry of the directory lacks its mark. -/
  | directoryMark
  /-- An extra field is longer than what is left. -/
  | extraField (tag size : Nat)
  /-- An extra field lacks a number that it is there for. -/
  | extraNumber (name : String)
  /-- The header of an entry lies where no file reaches. -/
  | headerOffset
  /-- The file ends within the header of an entry. -/
  | headerTruncated
  /-- The header of an entry lacks its mark. -/
  | headerMark
  /-- The entry is a patch. -/
  | patched
  /-- The entry is strongly encrypted. -/
  | strongEncryption
  /-- Directory and header give different names. -/
  | nameDiffers (name : String) (header : List UInt8)
  /-- The data of an entry runs into what follows it. -/
  | overlapping (name : String)
  /-- The entry is encrypted. -/
  | encrypted (description : String)
  /-- The entry is compressed in an unknown way. -/
  | method
  /-- The data is not in the format of its compression. -/
  | dataStream
  /-- The deflated data is broken. -/
  | deflate (fault : Archive.InflateFault)
  /-- The data has another checksum than it should. -/
  | checksum (name : String)
  deriving DecidableEq, Repr

def ArchiveFault.message : ArchiveFault → String
  | file error path => error.message ++ ": " ++ quotedString path
  | notArchive => "File is not a zip file"
  | manyDisks => "zipfiles that span multiple disks are not supported"
  | directoryOffset => "Bad offset for central directory"
  | directoryTruncated => "Truncated central directory"
  | directoryMark => "Bad magic number for central directory"
  | extraField tag size =>
    "Corrupt extra field " ++ String.ofList (hexDigits 4 tag) ++ " (size=" ++ toString size ++ ")"
  | extraNumber name => "Corrupt zip64 extra field. " ++ name ++ " not found."
  | headerOffset => FileError.invalidArgument.message
  | headerTruncated => "Truncated file header"
  | headerMark => "Bad magic number for file header"
  | patched => "compressed patched data (flag bit 5)"
  | strongEncryption => "strong encryption (flag bit 6)"
  | nameDiffers name header =>
    "File name in directory " ++ quotedString name ++ " and header " ++ quotedBytes header ++
      " differ."
  | overlapping name => "Overlapped entries: " ++ quotedString name ++ " (possible zip bomb)"
  | encrypted description =>
    "File " ++ description ++ " is encrypted, password required for extraction"
  | method => "That compression method is not supported"
  | dataStream => "Invalid data stream"
  | deflate fault => "Error -3 while decompressing data: " ++ fault.message
  | checksum name => "Bad CRC-32 for file " ++ quotedString name

end SignatureIndex
