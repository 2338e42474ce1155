import S4Logs.Drain.Cw
import S4Logs.Lib.Sorting

/-!
# Which log groups a drain is for

An exact name, a glob or every group of the account. A glob is asked for by the text before
its first special character, so that the account is not listed as a whole, and what comes
is filtered. The engine that compiles globs is a parameter.
-/

namespace S4Logs

inductive DiscoverError where
  | glob (pattern : String)
  | cw (e : CwError)
deriving DecidableEq

def globMeta : List Char := ['*', '?', '[', ']', '{', '}', '\\']

inductive GroupSelector where
  | exact (name : String)
  | glob (pattern : String) (matcher : String → Bool) (prefixHint : String)
  | all

namespace GroupSelector

/-- The text before the first special character. -/
def literal (pattern : String) : List Char := pattern.toList.takeWhile fun c => !globMeta.contains c

def parse (G : Globset) (pattern : String) : Except DiscoverError GroupSelector :=
  if pattern.toList.all fun c => !globMeta.contains c then .ok (.exact pattern)
  else
    match G.compile pattern with
    | none => .error (.glob pattern)
    | some matcher => .ok (.glob pattern matcher (String.ofList (literal pattern)))

end GroupSelector

/-- By name, each name once. -/
def byName (groups : List (String × LogGroupInfo)) : List (String × LogGroupInfo) :=
  Sorting.sortOnce Prod.fst groups

end S4Logs
