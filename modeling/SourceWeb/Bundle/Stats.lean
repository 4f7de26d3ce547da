/-
  How large the files of a document are.

  Files without any text are not counted.  The number of tokens of a text depends on a vocabulary,
  which is handed in as a function.
-/
import SourceWeb.Bundle.Document
import SourceWeb.Output.Size

namespace SourceWeb.Bundle

open SourceWeb.Text

structure FileStats where
  path : String
  language : String
  lines : Nat
  bytes : Nat
  tokens : Nat
  deriving DecidableEq, Repr

structure Stats where
  files : List FileStats
  deriving DecidableEq, Repr

namespace Stats

def ofFile (tokens : String → Nat) (f : File) : FileStats :=
  ⟨f.path, f.language, (lines f.content).length, f.content.utf8ByteSize, tokens f.content⟩

def ofFiles (tokens : String → Nat) (files : List File) : Stats :=
  ⟨((files.filter fun f => f.content != "").map (ofFile tokens)).mergeSort
    fun a b => !precedes b.path a.path⟩

def totalFiles (s : Stats) : Nat := s.files.length

def totalLines (s : Stats) : Nat := (s.files.map FileStats.lines).foldl (· + ·) 0

def totalBytes (s : Stats) : Nat := (s.files.map FileStats.bytes).foldl (· + ·) 0

def totalTokens (s : Stats) : Nat := (s.files.map FileStats.tokens).foldl (· + ·) 0

def fileJson (f : FileStats) : Json :=
  .obj [("path", .str f.path), ("language", .str f.language), ("lines", .nat f.lines),
    ("bytes", .nat f.bytes), ("bytes_readable", .str (Size.readable f.bytes)),
    ("estimated_tokens", .nat f.tokens)]

def toJson (s : Stats) : Json :=
  .obj [("total_files", .nat s.totalFiles), ("total_lines", .nat s.totalLines),
    ("total_bytes", .nat s.totalBytes),
    ("total_bytes_readable", .str (Size.readable s.totalBytes)),
    ("estimated_tokens", .nat s.totalTokens), ("files_details", .arr (s.files.map fileJson))]

end Stats

end SourceWeb.Bundle
