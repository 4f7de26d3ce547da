/-
  The variables that a program is started with, and what it reads from them.
-/
import SourceWeb.Path.Basic

namespace SourceWeb

open SourceWeb.Text

abbrev Environment := List (String × String)

namespace Environment

def filled? (env : Environment) (name : String) : Option String :=
  (env.lookup name).filter fun s => s != ""

def home? (env : Environment) : Option Path :=
  (env.filled? "HOME").map Path.mk

def expandHome (env : Environment) (s : String) : Path :=
  match afterStart "~" s, env.home? with
  | some rest, some home =>
    if rest = "" ∨ startsWith "/" rest then ⟨home.text ++ rest⟩ else ⟨s⟩
  | _, _ => ⟨s⟩

/-- A directory that a variable names, if it names an absolute path, else one below the directory of
    the user. -/
def userDir? (env : Environment) (name fallback : String) : Option Path :=
  match (env.filled? name).filter fun s => Path.isAbsolute ⟨s⟩ with
  | some s => some ⟨s⟩
  | none => env.home?.map fun home => home.child fallback

def configDir? (env : Environment) : Option Path :=
  env.userDir? "XDG_CONFIG_HOME" ".config"

def dataDir? (env : Environment) : Option Path :=
  env.userDir? "XDG_DATA_HOME" ".local/share"

end Environment

end SourceWeb
