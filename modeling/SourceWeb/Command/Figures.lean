/-
  Statistics as text: the totals, and a table with a row for each file.
-/
import SourceWeb.Bundle.Stats
import SourceWeb.Output.Table

namespace SourceWeb.Command

open SourceWeb.Bundle (Stats FileStats)

namespace Figures

def total (title value : String) : String :=
  Column.left 20 title ++ " " ++ value ++ "\n"

def row (f : FileStats) : List String :=
  [f.path, f.language, toString f.lines, Size.readable f.bytes, toString f.tokens]

def table (files : List FileStats) : Table where
  heads := ["Path", "Language", "Lines", "Size", "Tokens"]
  sides := [.left, .left, .right, .right, .right]
  rows := files.map row

def render (s : Stats) : String :=
  "\n Bundle Statistics \n" ++
  total "Total Files:" (toString s.totalFiles) ++
  total "Total Lines:" (toString s.totalLines) ++
  total "Total Size:" (Size.readable s.totalBytes) ++
  total "Est. Tokens:" (toString s.totalTokens) ++
  (if s.files.isEmpty then "\n(No non-empty text files discovered)\n"
   else "\n File Details \n" ++ (table s.files).render ++ "\n") ++
  "\n"

end Figures

end SourceWeb.Command
