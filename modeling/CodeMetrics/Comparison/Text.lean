import CodeMetrics.Comparison.Number

/-! Comparisons for a terminal, with or without color. -/

namespace CodeMetrics.Comparison

/-- How a piece of text is shown. -/
inductive Style where
  | bold
  | dimmed
  | red
  | green
  | blue
  | heading
deriving DecidableEq, Repr

/-- The code of a style. -/
def Style.code : Style → String
  | .bold => "1"
  | .dimmed => "2"
  | .red => "31"
  | .green => "32"
  | .blue => "34"
  | .heading => "1;36"

/-- The sequence that ends all styles. -/
def plainAgain : List Char := ['\x1b', '[', '0', 'm']

/-- The sequence that starts a style. -/
def Style.opening (style : Style) : List Char := '\x1b' :: '[' :: style.code.toList ++ ['m']

/-- A text in which a style is started again wherever the text ends it. -/
def keepStyle (opening : List Char) : List Char → List Char
  | [] => []
  | '\x1b' :: '[' :: '0' :: 'm' :: rest => plainAgain ++ opening ++ keepStyle opening rest
  | c :: rest => c :: keepStyle opening rest

/-- A text in a style, where color is asked for. -/
def styled (color : Bool) (style : Style) (s : String) : String :=
  if color then
    String.ofList (style.opening ++ keepStyle style.opening s.toList ++ plainAgain)
  else s

/-- A text with blanks after it up to a width. -/
def padRight (width : Nat) (s : String) : String :=
  s ++ String.ofList (List.replicate (width - s.length) ' ')

/-- A text with blanks before it up to a width. -/
def padLeft (width : Nat) (s : String) : String :=
  String.ofList (List.replicate (width - s.length) ' ') ++ s

/-- The style of a trend. -/
def trendStyle : Trend → Style
  | .same => .dimmed
  | .worse => .red
  | .better => .green

/-- The line of a change. -/
def deltaLine (color : Bool) (indent : Nat) (d : MetricDelta) : String :=
  let sign := if d.delta > 0.0 then "+" else ""
  let change := "(" ++ sign ++ number d.delta ++ ")"
  padRight indent "" ++ padRight 18 d.metric.name ++ padLeft 10 (number d.before) ++ " -> "
    ++ padRight 10 (number d.after) ++ " " ++ styled color (trendStyle d.trend) change ++ "\n"

/-- The heading of a list. -/
def listHeading (color : Bool) (title : String) (count : Nat) : String :=
  "  " ++ styled color .bold title ++ s!" ({count}):\n"

/-- A list of paths with a sign in front of each. -/
def pathList (color : Bool) (title sign : String) (style : Style) (paths : List String) : String :=
  if paths.isEmpty then ""
  else
    listHeading color title paths.length
      ++ String.join (paths.map fun path =>
        "    " ++ styled color style sign ++ " " ++ styled color .blue path ++ "\n")
      ++ "\n"

/-- The changed files with their changes. -/
def changeList (color : Bool) (files : List FileComparison) : String :=
  if files.isEmpty then ""
  else
    listHeading color "Changed files" files.length
      ++ String.join (files.map fun f =>
        "    " ++ styled color .blue f.path ++ "\n"
          ++ String.join (f.deltas.map (deltaLine color 6)))
      ++ "\n"

/-- A comparison for a terminal. -/
def renderText (color : Bool) (c : Comparison) : String :=
  (if c.isEmpty then "  " ++ styled color .green "No changes" ++ "\n" else "")
    ++ pathList color "New files" "+" .green c.newFiles
    ++ pathList color "Deleted files" "-" .red c.deletedFiles
    ++ changeList color c.changedFiles
    ++ "  " ++ styled color .bold "Totals:" ++ "\n"
    ++ String.join (c.totals.map (deltaLine color 4))

end CodeMetrics.Comparison
