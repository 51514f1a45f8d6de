import CommentTags.Language.Rule

/-!
# Comment marks of well-known languages

The marks that count for a language unless a language file gives others.
-/

namespace CommentTags

namespace CommentRule

/-- Line comments only. -/
def lineOnly (mark : String) : CommentRule :=
  { line := some mark }

/-- Block comments only. -/
def blockOnly (opening closing : String) : CommentRule :=
  { block := some (opening, closing) }

/-- Line comments and block comments. -/
def lineAndBlock (mark opening closing : String) : CommentRule :=
  { line := some mark, block := some (opening, closing) }

end CommentRule

open CommentRule in
/-- Groups of languages with the same comment marks. -/
def builtinRules : List (List String × CommentRule) := [
  (["asciidoc"], lineAndBlock "//" "////" "////"),
  (["apex", "javascript", "javascriptreact", "typescript", "typescriptreact", "al", "c", "cpp",
    "csharp", "dart", "flax", "fsharp", "go", "groovy", "haxe", "java", "jsonc", "kotlin", "less",
    "pascal", "objectpascal", "php", "rust", "scala", "sass", "scss", "stylus", "swift", "verilog"],
    lineAndBlock "//" "/*" "*/"),
  (["css"], blockOnly "/*" "*/"),
  (["coffeescript", "dockerfile", "gdscript", "graphql", "julia", "makefile", "perl", "perl6",
    "puppet", "r", "ruby", "shellscript", "tcl", "yaml"], lineOnly "#"),
  (["elixir", "python"], lineAndBlock "#" "\"\"\"" "\"\"\""),
  (["nim"], lineAndBlock "#" "#[" "]#"),
  (["powershell"], lineAndBlock "#" "<#" "#>"),
  (["ada", "hive-sql", "pig", "plsql", "sql"], lineOnly "--"),
  (["lua"], lineAndBlock "--" "--[[" "]]"),
  (["elm", "haskell"], lineAndBlock "--" "\x7b-" "-\x7d"),
  (["vb", "asp", "diagram"], lineOnly "'"),
  (["bibtex", "erlang", "latex", "matlab"], lineOnly "%"),
  (["clojure", "elps", "racket", "lisp"], lineOnly ";"),
  (["terraform"], lineAndBlock "#" "/*" "*/"),
  (["COBOL"], lineOnly "*>"),
  (["fortran-modern"], lineOnly "c"),
  (["SAS", "stata"], lineAndBlock "*" "/*" "*/"),
  (["html", "xml", "markdown", "vue"], blockOnly "<!--" "-->"),
  (["twig"], blockOnly "\x7b#" "#\x7d"),
  (["genstat"], lineAndBlock "\\" "\"" "\""),
  (["cfml"], blockOnly "<!---" "--->"),
  (["shaderlab"], lineOnly "//"),
  (["razor"], blockOnly "@*" "*@")]

/-- The comment marks of the language `id`, if it is well known. -/
def builtinRule? (id : String) : Option CommentRule :=
  (builtinRules.find? (·.1.contains id)).map (·.2)

end CommentTags
