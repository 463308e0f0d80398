import PowerGuru.Net.Xml

/-!
# `Commands`
-/
namespace PowerGuru.Net.Commands

open Lib.Bytes Common Xml

/-- `cmd_t`. -/
inductive Cmd where
  | nop
  | list
  | poll
  | helo
  | result
  | event
  deriving DecidableEq, Repr

def blank : Byte := 32

/-- `<tag>text</tag>`. -/
def tagged (tag text : List Byte) : List Byte :=
  bytes "<" ++ tag ++ bytes ">" ++ text ++ bytes "</" ++ tag ++ bytes ">"

/-- What stands before the first blank, and what stands after it if there is one. -/
def hostname (args : List Byte) : List Byte := args.takeWhile (· != blank)

def user (args : List Byte) : Option (List Byte) :=
  if blank ∈ args then some (args.dropWhile (· != blank)).tail else none

/-- The case of the switch. -/
def createBody (cmd : Cmd) (args : List Byte) : List Byte :=
  match cmd with
  | .list => tagged (bytes "list") args
  | .poll => tagged (bytes "poll") args
  | .nop => tagged (bytes "nop") args
  | .result => tagged (bytes "result") args
  | .helo =>
      let data := tagged (bytes "hostname") (hostname args)
      match user args with
      | none => tagged (bytes "helo") data
      | some u => tagged (bytes "helo") (data ++ tagged (bytes "user") u)
  | .event => []

/-- A RESULT is appended to what the string held before. -/
def createCommand (cmd : Cmd) (args str : List Byte) : List Byte :=
  if cmd = .result then str ++ createBody cmd args
  else bytes "<command>" ++ createBody cmd args ++ bytes "</command>\n"

/-- Whatever the command, the answer is the same. -/
def execCommand (xml : XML) (str : List Byte) : Except Fault (List Byte) := do
  let _cmd ← nameGet xml
  return createCommand .result (bytes "Iko Iko") str

theorem length_tagged (tag text : List Byte) :
    (tagged tag text).length = 2 * tag.length + text.length + 5 := by
  have h1 : (bytes "<").length = 1 := rfl
  have h2 : (bytes ">").length = 1 := rfl
  have h3 : (bytes "</").length = 2 := rfl
  simp only [tagged, List.length_append, h1, h2, h3]
  omega

theorem hostname_of_not_mem {args : List Byte} (h : blank ∉ args) : hostname args = args := by
  apply List.takeWhile_eq_self_iff.mpr
  intro b hb
  exact bne_iff_ne.mpr fun he => h (he ▸ hb)

theorem user_of_not_mem {args : List Byte} (h : blank ∉ args) : user args = none := if_neg h

theorem eq_of_user {args u : List Byte} (h : user args = some u) :
    args = hostname args ++ blank :: u := by
  by_cases hb : blank ∈ args
  · rw [user, if_pos hb, Option.some.injEq] at h
    have hd : args.dropWhile (· != blank) ≠ [] := by
      intro he
      have hall := List.dropWhile_eq_nil_iff.mp he blank hb
      simp at hall
    have hc := List.head_dropWhile_not (· != blank) hd
    rw [bne_eq_false_iff_eq] at hc
    have ht := List.cons_head_tail hd
    rw [hc, h] at ht
    rw [ht, hostname, List.takeWhile_append_dropWhile]
  · rw [user_of_not_mem hb] at h
    exact absurd h (by simp)

end PowerGuru.Net.Commands
