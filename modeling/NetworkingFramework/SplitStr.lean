import NetworkingFramework.Lib.Wire

/-!
# Splitting strings

`lib/split_str`: the tokens of a string between the occurrences of a delimiter.
-/

namespace NetworkingFramework

open Wire

/-- `std::string::find`: where the first occurrence begins. -/
def findStr (pat : Bytes) : Bytes → Option Nat
  | [] => if pat = [] then some 0 else none
  | c :: s => if pat.isPrefixOf (c :: s) then some 0 else (findStr pat s).map (· + 1)

/-- The loop of `split_str`, on the tokens found before. -/
def splitStrLoop (delimiter : Bytes) : Nat → List Bytes → Bytes → Except Fault (List Bytes)
  | 0, _, _ => .error .diverges
  | fuel + 1, tokens, str =>
    match findStr delimiter str with
    | none => .ok (tokens ++ [str])
    | some pos => splitStrLoop delimiter fuel (tokens ++ [str.take pos]) (str.drop (pos + delimiter.length))

/-- `split_str`. -/
def splitStr (str delimiter : Bytes) (fuel : Nat) : Except Fault (List Bytes) := splitStrLoop delimiter fuel [] str

end NetworkingFramework
