import CodeOutline.Disk.Basic

/-! # Reading and writing by path

A path is followed piece by piece from the top or from the working folder, and every piece
has to stand in a folder that is there, even one that only leads back up.  So a path that ends
in a slash leads to folders only.  Paths and names have a greatest length; that of a name only
matters once its folder has been found.

Writing can fail for the path, and for want of room while the bytes are written (`writeWithin`).  New
folders and empty files always have room, and nothing else goes wrong with the device.
-/

namespace CodeOutline

namespace Disk

inductive Fault where
  | notFound
  | notFolder
  | isFolder
  /-- Something stands where a folder is to be made. -/
  | taken
  | nameTooLong
  | zeroByte
  | notText
  | noRoom
deriving DecidableEq, Repr

def Fault.message : Fault → String
  | notFound => "No such file or directory (os error 2)"
  | notFolder => "Not a directory (os error 20)"
  | isFolder => "Is a directory (os error 21)"
  | taken => "File exists (os error 17)"
  | nameTooLong => "File name too long (os error 36)"
  | zeroByte => "file name contained an unexpected NUL byte"
  | notText => "stream did not contain valid UTF-8"
  | noRoom => "No space left on device (os error 28)"

/-! ## Following paths -/

def maxPathSize : Nat := 4095

def pathFault? (path : String) : Option Fault :=
  if path.toList.contains '\x00' then some .zeroByte
  else if path.isEmpty then some .notFound
  else if maxPathSize < path.utf8ByteSize then some .nameTooLong
  else none

/-- Follows pieces of a path from a place.  The place they lead to need not be there. -/
def follow (disk : Disk) : Place → List (List Char) → Except Fault Place
  | place, [] => .ok place
  | place, piece :: rest =>
    match disk.item? place with
    | none => .error .notFound
    | some (.file _) => .error .notFolder
    | some .folder =>
      match Path.pieceComponent? piece with
      | none => follow disk place rest
      | some (.name text) =>
        if maxNameSize < text.utf8ByteSize then .error .nameTooLong
        else follow disk (place ++ [text]) rest
      | some _ => follow disk place.dropLast rest

def origin (here : Place) (path : String) : Place :=
  if Path.isAbsolute path then [] else here

/-- The place a path leads to from the working folder `here`, with what stands there. -/
def find (disk : Disk) (here : Place) (path : String) : Except Fault (Place × Item) :=
  match pathFault? path with
  | some fault => .error fault
  | none =>
    match disk.follow (origin here path) (Path.pieces path.toList) with
    | .error fault => .error fault
    | .ok place =>
      match disk.item? place with
      | none => .error .notFound
      | some item => .ok (place, item)

def exists? (disk : Disk) (here : Place) (path : String) : Bool :=
  (disk.find here path).toOption.isSome

def isFile (disk : Disk) (here : Place) (path : String) : Bool :=
  match disk.find here path with
  | .ok (_, .file _) => true
  | _ => false

def isFolder (disk : Disk) (here : Place) (path : String) : Bool :=
  match disk.find here path with
  | .ok (_, .folder) => true
  | _ => false

/-! ## Reading -/

def readBytes (disk : Disk) (here : Place) (path : String) : Except Fault ByteArray :=
  match disk.find here path with
  | .error fault => .error fault
  | .ok (_, .folder) => .error .isFolder
  | .ok (_, .file content) => .ok content

def decode (content : ByteArray) : Except Fault String :=
  match String.fromUTF8? content with
  | none => .error .notText
  | some text => .ok text

def readText (disk : Disk) (here : Place) (path : String) : Except Fault String :=
  (disk.readBytes here path).bind decode

/-! ## Writing -/

def parent (disk : Disk) (start : Place) (pieces : List (List Char)) :
    Except Fault (Place × List Char) :=
  match disk.follow start pieces.dropLast with
  | .error fault => .error fault
  | .ok place =>
    match disk.item? place with
    | none => .error .notFound
    | some (.file _) => .error .notFolder
    | some .folder => .ok (place, pieces.getLast?.getD [])

/-- Writes a file, in the place of a file that is there, on a disk that has room for it.  A path that
    ends in a slash is taken for that of a folder, whether there is one or not. -/
def write (disk : Disk) (here : Place) (path : String) (content : ByteArray) :
    Except Fault Disk :=
  let pieces := Path.pieces path.toList
  let named := (pieces.reverse.dropWhile List.isEmpty).reverse
  match pathFault? path with
  | some fault => .error fault
  | none =>
    match disk.parent (origin here path) named with
    | .error fault => .error fault
    | .ok (folder, piece) =>
      match Path.pieceComponent? piece with
      | some (.name text) =>
        if named.length < pieces.length then .error .isFolder
        else if maxNameSize < text.utf8ByteSize then .error .nameTooLong
        else if disk.item? (folder ++ [text]) = some .folder then .error .isFolder
        else .ok (disk.put (folder ++ [text]) (.file content))
      | _ => .error .isFolder

/-- Writes a file on a disk that takes no more than `room` bytes of it, if that is given.  The file is
    opened before the first byte is written, so that what does not fit leaves a beginning of the content
    where another file may have been. -/
def writeWithin (disk : Disk) (room : Option Nat) (here : Place) (path : String)
    (content : ByteArray) : Disk × Option Fault :=
  let taken :=
    match room with
    | none => content
    | some size => content.extract 0 size
  match disk.write here path taken with
  | .error fault => (disk, some fault)
  | .ok disk => (disk, if taken.size < content.size then some .noRoom else none)

/-- Makes the folders that the pieces of a path lead through from a place, where nothing stands
    yet; `made` tells that a folder was made before.  The folders made before a fault stay.  A file
    on the way is in the way of the folder to be made, but before anything is made it is noticed
    as one that the last folder cannot be below. -/
def makeFoldersFrom (disk : Disk) (made : Bool) (place : Place) :
    List (List Char) → Disk × Option Fault
  | [] => (disk, none)
  | piece :: rest =>
    match Path.pieceComponent? piece with
    | none => makeFoldersFrom disk made place rest
    | some (.name text) =>
      if maxNameSize < text.utf8ByteSize then (disk, some .nameTooLong)
      else
        match disk.item? (place ++ [text]) with
        | some .folder => makeFoldersFrom disk made (place ++ [text]) rest
        | some (.file _) =>
          (disk, some (if made || rest.all Path.isSkipped then .taken else .notFolder))
        | none => makeFoldersFrom (disk.put (place ++ [text]) .folder) true (place ++ [text]) rest
    | some _ => makeFoldersFrom disk made place.dropLast rest

/-- Makes the folder a path leads to and the folders above it, and tells what was in the way.  The
    empty path leads to a folder that is there. -/
def makeFolders (disk : Disk) (here : Place) (path : String) : Disk × Option Fault :=
  if path.isEmpty then (disk, none)
  else
    match pathFault? path with
    | some fault => (disk, some fault)
    | none => disk.makeFoldersFrom false (origin here path) (Path.pieces path.toList)

end Disk

end CodeOutline
