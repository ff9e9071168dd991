import Labios.Channel.Model
import Labios.Dispatcher.Observability
import Labios.Foundation.Glob
import Labios.Foundation.Json
import Labios.Workspace.Model

/-!
# What the listings say

The answers to `channels/list`, `workspaces/list` and `data/location` as JSON texts. The
names and the path are pasted into them as they are, a channel name only up to its first
colon, so an answer is right where nothing in a name or the path has a meaning in JSON and
no channel name has a colon. The names of the workspaces come from a vector: `SCAN` must
not report an index key twice, and no key of another kind may look like one.
-/

namespace Labios

open Foundation Foundation.Json

/-! ## Specification -/

/-- `SCAN` finds what is there and fits the pattern, possibly more than once. A set is walked
in some order. Only channels with a name store keys that look like theirs. -/
structure ObserveEnv.Serves (env : ObserveEnv) (r : Redis) (now : Nat) : Prop where
  scan : ∀ pattern key, key ∈ env.scanKeys pattern ↔
    (r.value now key).isSome ∧ globMatches pattern key
  walk_nodup : ∀ names, (env.walk names).Nodup
  mem_walk : ∀ names name, name ∈ env.walk names ↔ name ∈ names
  staged : ∀ key, (r.value now key).isSome → "labios:channel:".toList <+: key.toList →
    ∃ name sequence, name ≠ "" ∧ key = warehouseKey name sequence

section Texts

end Texts

/-! ## Names in keys -/

section Keys

variable {env : ObserveEnv} {r : Redis} {now : Nat} {name key : String}

/-- The part of a channel's name that is shown. -/
def shown (name : List Char) : List Char := name.takeWhile (· ≠ ':')

end Keys

/-! ## The names that are found -/

section Found

variable {env : ObserveEnv} {r : Redis} {now : Nat} {name : String}

end Found

/-! ## The listings -/

section Listings

variable {env : ObserveEnv} {r : Redis} {now : Nat}

end Listings

/-! ## The location of a file -/

section Location

variable {query : Uri} {env : ObserveEnv} {path : String}

end Location

/-! ## Every observe query -/

section Site

variable {channel workspace name : String}

end Site

end Labios
