import CodeOutline.Ignore.Level
import CodeOutline.Machine
import CodeOutline.Text.Pattern

/-! # Personal ignore rules

The rules a user has set for version control in all folders.  They stand in the file that the
settings of version control name, and otherwise in a file beside those settings.  There may be
several files of settings; each is searched for a line that looks like the one wanted, and its
sections are not looked at.
-/

namespace CodeOutline.Personal

open Text (Pattern)

/-! ## The settings of version control -/

def isSettingBlank (c : Char) : Bool :=
  c == ' ' || ('\t' ≤ c && c ≤ '\r')

def letter (c : Char) : Pattern :=
  .one fun d => d.toLower == c

def beforePath : Pattern :=
  .inOrder
    [.run isSettingBlank, .inOrder ("excludesfile".toList.map letter), .run isSettingBlank,
     .char '=', .run isSettingBlank, .optional (.char '"'), .run isSettingBlank]

def afterPath : Pattern :=
  .inOrder [.run isSettingBlank, .optional (.char '"'), .run isSettingBlank]

def atLineEnd : List Char → Bool
  | [] => true
  | c :: _ => c == '\n'

/-- The shortest path without blanks that the line may end behind, `taken` being the part of it
    that was taken, last character first. -/
def shortestPath? (taken : List Char) : List Char → Option (List Char)
  | [] => none
  | c :: rest =>
    if isSettingBlank c then none
    else if (afterPath.ends rest).any atLineEnd then some (c :: taken).reverse
    else shortestPath? (c :: taken) rest

def pathHere? (text : List Char) : Option (List Char) :=
  (beforePath.ends text).findSome? (shortestPath? [])

def pathBelow? : List Char → Option (List Char)
  | [] => none
  | c :: rest => (if c = '\n' then pathHere? rest else none).or (pathBelow? rest)

/-- The path that settings name.  They are searched as bytes, and the path is UTF-8. -/
def namedPath? (content : ByteArray) : Option String :=
  let text := content.toList.map fun b => Char.ofNat b.toNat
  ((pathHere? text).or (pathBelow? text)).bind fun path =>
    String.fromUTF8? (ByteArray.mk (path.map fun c => UInt8.ofNat c.toNat).toArray)

def expandTilde (home : Option String) (path : String) : String :=
  match home with
  | none => path
  | some home => String.ofList (path.toList.flatMap fun c => if c = '~' then home.toList else [c])

/-! ## Where the rules are -/

def settingsFolder? (machine : Machine) : Option String :=
  ((machine.valueOf? "XDG_CONFIG_HOME").filter fun path => !path.isEmpty).or
    (machine.home?.map (Path.join · ".config"))

def namedIn? (machine : Machine) (path : Option String) : Option String :=
  path.bind fun path =>
    ((machine.disk.readBytes machine.here path).toOption.bind namedPath?).map
      (expandTilde machine.home?)

/-- The paths of the settings of version control, the ones that come first before the others:
    two may be given by variables, and two stand at fixed places. -/
def settingsPaths (machine : Machine) : List (Option String) :=
  [machine.valueOf? "GIT_CONFIG_GLOBAL",
   machine.home?.map (Path.join · ".gitconfig"),
   (settingsFolder? machine).map (Path.join · "git/config"),
   machine.valueOf? "GIT_CONFIG_SYSTEM"]

/-- The path of the file with the rules: the first that settings name, or a file beside them. -/
def path? (machine : Machine) : Option String :=
  ((settingsPaths machine).findSome? (namedIn? machine)).or
    ((settingsFolder? machine).map (Path.join · "git/ignore"))

def rules (machine : Machine) : RuleSet :=
  let content := (path? machine).bind fun path =>
    (machine.disk.readBytes machine.here path).toOption
  ⟨machine.herePath, (content.map Rule.ofContent).getD []⟩

end CodeOutline.Personal
