import CodeOutline.Path
import CodeOutline.Text.Basic

/-! # Programming languages

The languages whose files can be outlined, with the file extensions and the names they are
known by.  Names and extensions are recognised in any case.
-/

namespace CodeOutline

inductive Language where
  | rust
  | cpp
  | java
  | kotlin
  | cSharp
  | typeScript
  | javaScript
  | python
  | ruby
  | php
  | lua
  | bash
  | go
  | unknown
deriving DecidableEq, Repr

instance : Inhabited Language := ⟨.unknown⟩

namespace Language

def all : List Language :=
  [rust, cpp, java, kotlin, cSharp, typeScript, javaScript, python, ruby, php, lua, bash, go]

def extensions : Language → List String
  | rust => ["rs"]
  | cpp => ["c", "cpp", "cc", "cxx", "h", "hpp", "hxx"]
  | java => ["java"]
  | kotlin => ["kt", "kts"]
  | cSharp => ["cs"]
  | typeScript => ["ts", "tsx", "mts", "cts"]
  | javaScript => ["js", "jsx", "mjs", "cjs"]
  | python => ["py", "pyi"]
  | ruby => ["rb", "rake", "gemspec"]
  | php => ["php"]
  | lua => ["lua"]
  | bash => ["sh", "bash", "zsh"]
  | go => ["go"]
  | unknown => []

def allExtensions : List String :=
  all.flatMap extensions

/-- The language with the given file extension, in any case. -/
def ofExtension (ext : String) : Language :=
  (all.find? fun language => language.extensions.contains (Text.foldCase ext)).getD unknown

def ofPath (path : String) : Language :=
  match Path.extension? path with
  | some ext => ofExtension ext
  | none => unknown

def title : Language → String
  | rust => "Rust"
  | cpp => "Cpp"
  | java => "Java"
  | kotlin => "Kotlin"
  | cSharp => "CSharp"
  | typeScript => "TypeScript"
  | javaScript => "JavaScript"
  | python => "Python"
  | ruby => "Ruby"
  | php => "PHP"
  | lua => "Lua"
  | bash => "Bash"
  | go => "Go"
  | unknown => "Unknown"

def tag (language : Language) : String :=
  Text.lowerAscii language.title

def ofTag? (tag : String) : Option Language :=
  (all ++ [unknown]).find? fun language => language.tag == tag

/-- The identifier of a language in the language server protocol. -/
def serverId : Language → String
  | bash => "shellscript"
  | unknown => "plaintext"
  | language => language.tag

def names : Language → List String
  | rust => ["rust", "rs"]
  | cpp => ["cpp", "c++", "c"]
  | java => ["java"]
  | kotlin => ["kotlin", "kt"]
  | cSharp => ["csharp", "c#", "cs"]
  | typeScript => ["typescript", "ts"]
  | javaScript => ["javascript", "js"]
  | python => ["python", "py"]
  | ruby => ["ruby", "rb"]
  | php => ["php"]
  | lua => ["lua"]
  | bash => ["bash", "sh", "shellscript"]
  | go => ["go", "golang"]
  | unknown => []

def ofName? (name : String) : Option Language :=
  all.find? fun language => language.names.contains (Text.foldCase name)

def unknownNameMessage (name : String) : String :=
  "Unknown language: " ++ name

end Language

end CodeOutline
