import EnvValues.Shell.Posix.Program.Basic

/-!
# Filters

Programs that read texts and write what they make of them: `cat`, `tr`, `head`, `tail`,
`wc`, `sort`, `uniq`, `cut`, `rev` and `tee`.
-/

namespace EnvValues
namespace Posix
namespace Program

/-! ## Whole texts -/

/-- A number at the right end of so many columns. -/
def column (n : Nat) (k : Nat) : Text :=
  let ds := Numeral.decimal k
  List.replicate (n - ds.length) ' ' ++ ds

/-- A byte, as it is shown where only printable characters may be. -/
def visible (c : Char) : Text :=
  let low (n : Nat) : Text :=
    if n < 32 then ['^', Char.ofNat (n + 64)]
    else if n = 127 then ['^', '?']
    else [Char.ofNat n]
  if c.toNat < 128 then low c.toNat else 'M' :: '-' :: low (c.toNat - 128)

/-- How `cat` shows lines. -/
structure Showing where
  squeezed : Bool
  numbered : Bool
  /-- Are empty lines left out when lines are numbered? -/
  filledOnly : Bool
  ends : Bool
  tabs : Bool
  /-- Are other bytes shown that cannot be printed? -/
  others : Bool

/-- How the options of `cat` ask for lines to be shown. -/
def Showing.ofChosen (chosen : List Chosen) : Showing where
  squeezed := has 's' chosen
  numbered := has 'n' chosen || has 'b' chosen
  filledOnly := has 'b' chosen
  ends := ['E', 'A', 'e'].any (has · chosen)
  tabs := ['T', 'A', 't'].any (has · chosen)
  others := ['v', 'A', 'e', 't'].any (has · chosen)

/-- Are texts shown as they are? -/
def Showing.isPlain (s : Showing) : Bool :=
  !(s.squeezed || s.numbered || s.ends || s.tabs || s.others)

/-- One line, without its newline. -/
def Showing.line (s : Showing) (l : Text) : Text :=
  l.flatMap fun c =>
    if c = '\t' then (if s.tabs then ['^', 'I'] else [c])
    else if s.others then visible c
    else [c]

/-- Lines as they are shown. The count of lines goes on from file to file, and so does
the knowledge whether the last line was empty. -/
def Showing.lines (s : Showing) : (count : Nat) → (afterEmpty : Bool) → List Text → List Text
  | _, _, [] => []
  | count, afterEmpty, l :: ls =>
    let isLast := ls.isEmpty
    -- behind the last newline there is no line
    if isLast && l.isEmpty then []
    else if l.isEmpty && afterEmpty && s.squeezed then s.lines count true ls
    else
      let numbered := s.numbered && !(s.filledOnly && l.isEmpty)
      let lead := if numbered then column 6 (count + 1) ++ ['\t'] else []
      let sign : Text := if s.ends && !isLast then ['$'] else []
      let newline : Text := if isLast then [] else ['\n']
      (lead ++ s.line l ++ sign ++ newline) ::
        s.lines (if numbered then count + 1 else count) l.isEmpty ls

/-- Write files, one behind the other. -/
def cat : Program := fun name args =>
  withOptions "nbsETAuvet" "" name args fun chosen files => do
    if (← Run.descriptor? 1).isNone then
      complain name "standard output: Bad file descriptor".toList
      pure 1
    else if (Showing.ofChosen chosen).isPlain then
      let mut status := 0
      for f in (if files.isEmpty then [['-']] else files) do
        match ← readFile f none with
        | .ok t =>
          if (← write name t 0) ≠ 0 then return 1
        | .error e =>
          complain name (plainComplaint f e)
          status := 1
      if (← Run.descriptor? 0).isNone && (files.isEmpty || files.contains ['-']) then
        complain name "closing standard input: Bad file descriptor".toList
      pure status
    else
      let (texts, status) ← readAll plainComplaint name files
      let t := texts.flatMap Prod.snd
      write name ((Showing.ofChosen chosen).lines 0 false (Text.pieces '\n' t)).flatten status

/-- Write the input to the output and to files. -/
def tee : Program := fun name args =>
  withOptions "ai" "" name args fun chosen files => do
    let t ← match ← Run.readFrom 0 none with
      | .ok t => pure t
      | .error _ => pure []
    let mut status := 0
    for f in files do
      match ← Run.openForWriting f false (has 'a' chosen) false with
      | .ok d =>
        let _ ← Run.writeOpened d.target t
      | .error e =>
        complain name (plainComplaint f e)
        status := 1
    write name t status

/-! ## Characters -/

/-- The characters that are written in a set of `tr`, with its escapes replaced. The flag
says whether a character was escaped. -/
def unescape : (fuel : Nat) → Text → List (Char × Bool)
  | 0, _ => []
  | _, [] => []
  | fuel + 1, '\\' :: c :: r =>
    let digits := ((c :: r).take 3).takeWhile fun d => '0' ≤ d && d ≤ '7'
    if digits.isEmpty then
      let d := match c with
        | 'a' => '\x07'
        | 'b' => '\x08'
        | 'f' => '\x0c'
        | 'n' => '\n'
        | 'r' => '\r'
        | 't' => '\t'
        | 'v' => '\x0b'
        | c => c
      (d, true) :: unescape fuel r
    else
      let n := digits.foldl (fun n d => n * 8 + (d.toNat - '0'.toNat)) 0
      (Char.ofNat (n % 256), true) :: unescape fuel ((c :: r).drop digits.length)
  | fuel + 1, c :: r => (c, false) :: unescape fuel r

/-- All bytes. -/
def allBytes : Text := (List.range 256).map Char.ofNat

/-- The characters of a class. -/
def classMembers? (name : String) : Option Text :=
  (Pattern.classes.lookup name).map fun p => allBytes.filter p

/-- One element of a set: characters, or a character to be repeated. -/
inductive Element
  | chars (t : Text)
  | repeated (c : Char) (n : Nat)

/-- The elements of a set. An error is what stands the wrong way round. -/
def elements : (fuel : Nat) → List (Char × Bool) → Except Text (List Element)
  | 0, _ => .ok []
  | _, [] => .ok []
  | fuel + 1, ('[', false) :: (':', false) :: r =>
    let name := (r.takeWhile fun c => c.1 ≠ ':').map Prod.fst
    match classMembers? (String.ofList name), r.drop name.length with
    | some cs, (':', _) :: (']', _) :: r => do return .chars cs :: (← elements fuel r)
    | _, _ => do return .chars ['['] :: (← elements fuel ((':', false) :: r))
  | fuel + 1, ('[', false) :: (c, _) :: ('*', false) :: r =>
    let digits := (r.takeWhile fun c => c.1.isDigit).map Prod.fst
    match r.drop digits.length with
    | (']', _) :: r =>
      let base := if digits.head? = some '0' then 8 else 10
      let n := ((Numeral.digits? base digits).map Prod.fst).getD 0
      do return .repeated c n :: (← elements fuel r)
    | _ => do return .chars ['['] :: (← elements fuel ((c, true) :: ('*', true) :: r))
  | fuel + 1, (a, _) :: ('-', false) :: (b, _) :: r =>
    if a ≤ b then do
      let cs := (List.range (b.toNat + 1 - a.toNat)).map fun i => Char.ofNat (a.toNat + i)
      return .chars cs :: (← elements fuel r)
    else .error [a, '-', b]
  | fuel + 1, (c, _) :: r => do return .chars [c] :: (← elements fuel r)

/-- The characters of a set. One that is repeated without a number fills it up. -/
def members (length : Nat) (es : List Element) : Text :=
  let known := (es.map fun e => match e with
    | .chars t => t.length
    | .repeated _ n => n).foldl (· + ·) 0
  es.flatMap fun e => match e with
    | .chars t => t
    | .repeated c 0 => List.replicate (length - known) c
    | .repeated c n => List.replicate n c

/-- Leave out a character of the set behind an equal one. -/
def squeeze (set : Text) : Text → Text
  | a :: b :: r =>
    if a = b && set.contains a then squeeze set (b :: r) else a :: squeeze set (b :: r)
  | t => t

/-- Replace, delete or squeeze characters of the input. -/
def tr : Program := fun name args =>
  let leading := args.takeWhile fun a => a.length > 1 && a.head? = some '-' && a ≠ ['-', '-']
  let operands := args.drop leading.length
  let operands := if operands.head? = some ['-', '-'] then operands.drop 1 else operands
  withOptions "cCdst" "" name leading fun chosen _ => do
    let deletes := has 'd' chosen
    let squeezes := has 's' chosen
    let complements := has 'c' chosen || has 'C' chosen
    let needed := if deletes != squeezes then 1 else 2
    let most := if deletes && !squeezes then 1 else 2
    if operands.isEmpty then misused 1 name "missing operand".toList
    else if operands.length < needed then do
      complain name ("missing operand after ".toList ++ quoted (operands.headD []))
      let why := if deletes then
          "Two strings must be given when both deleting and squeezing repeats.\n"
        else "Two strings must be given when translating.\n"
      Run.writeError why.toList
      suggestHelp name
      pure 1
    else if operands.length > most then do
      complain name ("extra operand ".toList ++ quoted ((operands[most]?).getD []))
      if deletes && most = 1 && operands.length = 2 then
        Run.writeError
          "Only one string may be given when deleting without squeezing repeats.\n".toList
      suggestHelp name
      pure 1
    else
      let set (t : Text) : Except Text (List Element) :=
        elements (t.length + 1) (unescape (t.length + 1) t)
      match set (operands.headD []), set ((operands[1]?).getD []) with
      | .error e, _ | _, .error e => do
        complain name ("range-endpoints of ".toList ++ quoted e ++
          " are in reverse collating sequence order".toList)
        pure 1
      | .ok first, .ok second =>
        let first := members 0 first
        let first := if complements then allBytes.filter fun c => !first.contains c else first
        let second := members first.length second
        if operands.length = 2 && !deletes && second.isEmpty && !first.isEmpty then
          complain name "when not truncating set1, string2 must be non-empty".toList
          pure 1
        else
          let t ← match ← Run.readFrom 0 none with
            | .ok t => pure t
            | .error _ => pure []
          let replaced (c : Char) : Char :=
            match first.reverse.idxOf? c with
            | some k => (second[first.length - 1 - k]?.or second.getLast?).getD c
            | none => c
          let t := if deletes then t.filter fun c => !first.contains c
            else if operands.length = 2 then t.map replaced
            else t
          let t := if !squeezes then t
            else if operands.length = 2 then squeeze second t
            else squeeze first t
          write name t 0

/-! ## Lines -/

/-- A number of lines or bytes, with a sign in front if there is one. -/
def countOf? (t : Text) : Option (Option Char × Nat) :=
  let (sign, ds) := match t with
    | '-' :: r => (some '-', r)
    | '+' :: r => (some '+', r)
    | r => (none, r)
  match Numeral.digits? 10 ds with
  | some (n, []) => some (sign, n)
  | _ => none

/-- An argument such as `-5` is short for `-n 5`. -/
def withCounts (args : List Text) : List Text :=
  args.flatMap fun a =>
    match a with
    | '-' :: c :: r => if (c :: r).all Char.isDigit then [['-', 'n'], c :: r] else [a]
    | a => [a]

/-- A text cut into lines, each with its newline. -/
def wholeLines (t : Text) : List Text :=
  let ls := Text.pieces '\n' t
  ls.dropLast.map (· ++ ['\n']) ++ (ls.getLast?.filter (!·.isEmpty)).toList

/-- Complain about a file that cannot be opened, or not be read. -/
def openComplaint (f : Text) (e : SystemError) : Text :=
  match e with
  | .isDirectory => "error reading ".toList ++ quoted f ++ ": Is a directory".toList
  | e => "cannot open ".toList ++ quoted f ++ " for reading: ".toList ++ e.message.toList

/-- Write one end of each file, as `part` takes it. -/
def ends (name : Text) (args : List Text) (byBytes : Option Char → Nat → Text → Text)
    (byLines : Option Char → Nat → List Text → List Text) : Run Nat :=
  withOptions "qvz" "nc" name (withCounts args) fun chosen files => do
    let bytes := chosen.reverse.find? fun o => o.letter = 'n' || o.letter = 'c'
    let (inBytes, amount) : Bool × Text := match bytes with
      | some ⟨c, a⟩ => (c = 'c', a)
      | none => (false, ['1', '0'])
    match countOf? amount with
    | none =>
      let what := if inBytes then "invalid number of bytes: " else "invalid number of lines: "
      complain name (what.toList ++ quoted amount)
      pure 1
    | some (sign, n) =>
      let (texts, status) ← readAll openComplaint name files
      let several := files.length > 1 && !has 'q' chosen || has 'v' chosen
      let parts := texts.zipIdx.map fun ((f, t), k) =>
        let shown := if f = ['-'] then "standard input".toList else f
        let title := if !several then []
          else (if k = 0 then [] else ['\n']) ++ "==> ".toList ++ shown ++ " <==\n".toList
        title ++ (if inBytes then byBytes sign n t else (byLines sign n (wholeLines t)).flatten)
      write name parts.flatten status

/-- Write the beginning of files. -/
def head : Program := fun name args =>
  let part {α : Type} (sign : Option Char) (n : Nat) (l : List α) : List α :=
    if sign = some '-' then l.take (l.length - n) else l.take n
  ends name args part part

/-- Write the end of files. -/
def tail : Program := fun name args =>
  let part {α : Type} (sign : Option Char) (n : Nat) (l : List α) : List α :=
    if sign = some '+' then l.drop (n - 1) else l.drop (l.length - n)
  ends name args part part

/-- How many lines, words and bytes a text has. -/
def counts (t : Text) : Nat × Nat × Nat :=
  let isBlank (c : Char) : Bool := c = ' ' || ('\t' ≤ c && c ≤ '\r')
  let words := t.foldl (fun (n, inside) c =>
    if isBlank c then (n, false) else (if inside then n else n + 1, true)) (0, false)
  (t.count '\n', words.1, t.length)

/-- Count lines, words and bytes. -/
def wc : Program := fun name args =>
  withOptions "clmw" "" name args fun chosen files => do
    let all := chosen.isEmpty
    let (texts, status) ← readAll plainComplaint name files
    let shown (c : Nat × Nat × Nat) : List Nat :=
      (if all || has 'l' chosen then [c.1] else []) ++
      (if all || has 'w' chosen then [c.2.1] else []) ++
      (if has 'm' chosen then [c.2.2] else []) ++
      (if all || has 'c' chosen then [c.2.2] else [])
    let rows := texts.map fun (f, t) => (f, counts t)
    let total := rows.foldl (fun (a, b, c) (_, d, e, f) => (a + d, b + e, c + f)) (0, 0, 0)
    let rows := if files.length > 1 then rows ++ [("total".toList, total)] else rows
    -- input that is no file gets wide columns, unless there is only one
    let narrow := rows.length ≤ 1 && (shown total).length = 1
    let unsized :=
      files.isEmpty || files.any fun f => f = ['-'] || ['/', 'd', 'e', 'v'].isPrefixOf f
    let width := if narrow then 1 else if unsized then 7
      else (Numeral.decimal total.2.2).length
    let line (f : Text) (c : Nat × Nat × Nat) : Text :=
      [' '].intercalate ((shown c).map (column width)) ++
        (if files.isEmpty then [] else ' ' :: f)
    write name (textOf (rows.map fun (f, c) => line f c)) status

/-- A number at the beginning of a line. -/
def leadingNumber (t : Text) : Int :=
  let t := t.dropWhile fun c => c = ' ' || c = '\t'
  match t with
  | '-' :: r => -(((Numeral.digits? 10 r).map Prod.fst).getD 0 : Int)
  | r => (((Numeral.digits? 10 r).map Prod.fst).getD 0 : Int)

/-- Write the lines of files in order. -/
def sort : Program := fun name args =>
  withOptions "nrusf" "o" name args fun chosen files => do
    let complaint (f : Text) (e : SystemError) : Text :=
      "cannot read: ".toList ++ plainComplaint f e
    let (texts, status) ← readAll complaint name files
    if status ≠ 0 then pure 2
    else
      let ls := texts.flatMap fun (_, t) => linesOf t
      let key (t : Text) : Text := if has 'f' chosen then t.map Char.toUpper else t
      let byKey (a b : Text) : Ordering :=
        if has 'n' chosen then compare (leadingNumber a) (leadingNumber b)
        else compare (key a) (key b)
      let order (a b : Text) : Bool :=
        let o := if has 'r' chosen then (byKey a b).swap else byKey a b
        let last := if has 'r' chosen then (compare a b).swap else compare a b
        let o := if has 's' chosen || has 'u' chosen then o else o.then last
        o ≠ .gt
      let ls := ls.mergeSort order
      let ls := if has 'u' chosen then
          ls.foldr (fun l r => match r with
            | m :: r => if byKey l m = .eq then l :: r else l :: m :: r
            | [] => [l]) []
        else ls
      write name (textOf ls) 0

/-- Runs of equal lines, with their lengths. -/
def runs : List Text → List (Text × Nat) :=
  List.foldr (fun l r => match r with
    | (m, n) :: r => if l = m then (l, n + 1) :: r else (l, 1) :: (m, n) :: r
    | [] => [(l, 1)]) []

/-- Write each line of a run of equal ones once. -/
def uniq : Program := fun name args =>
  withOptions "cdui" "" name args fun chosen files => do
    match ← readFile (files.headD ['-']) none with
    | .error e =>
      complain name (plainComplaint (files.headD ['-']) e)
      pure 1
    | .ok t =>
      let rs := (runs (linesOf t)).filter fun r =>
        (!has 'd' chosen || r.2 > 1) && (!has 'u' chosen || r.2 = 1)
      let line (r : Text × Nat) : Text :=
        if has 'c' chosen then column 7 r.2 ++ ' ' :: r.1 else r.1
      write name (textOf (rs.map line)) 0

/-- The ranges of a list such as `1,3-5,7-`. -/
def ranges? (t : Text) : Option (List (Nat × Option Nat)) :=
  (Text.pieces ',' t).mapM fun r =>
    match Text.pieces '-' r with
    | [a] => (Numeral.digits? 10 a).bind fun p => if p.2.isEmpty then some (p.1, some p.1) else none
    | [[], b] => (Numeral.digits? 10 b).map fun p => (1, some p.1)
    | [a, []] => (Numeral.digits? 10 a).map fun p => (p.1, none)
    | [a, b] => (Numeral.digits? 10 a).bind fun p =>
      (Numeral.digits? 10 b).map fun q => (p.1, some q.1)
    | _ => none

/-- The elements of a list whose places, counted from one, are in the ranges. -/
def inRanges {α : Type} (rs : List (Nat × Option Nat)) (l : List α) : List α :=
  (l.zipIdx.filter fun (_, k) => rs.any fun (a, b) => a ≤ k + 1 && b.all (k + 1 ≤ ·)).map Prod.fst

/-- Write parts of lines. -/
def cut : Program := fun name args =>
  withOptions "sn" "bcfd" name args fun chosen files => do
    match chosen.find? fun o => ['b', 'c', 'f'].contains o.letter with
    | none => misused 1 name "you must specify a list of bytes, characters, or fields".toList
    | some ⟨kind, list⟩ =>
      match ranges? list with
      | none => misused 1 name ("invalid field value ".toList ++ quoted list)
      | some rs =>
        let (texts, status) ← readAll plainComplaint name files
        let delimiter := ((argument? 'd' chosen).bind List.head?).getD '\t'
        let line (l : Text) : Option Text :=
          if kind ≠ 'f' then some (inRanges rs l)
          else if l.contains delimiter then
            some ([delimiter].intercalate (inRanges rs (Text.pieces delimiter l)))
          else if has 's' chosen then none
          else some l
        write name (textOf ((texts.flatMap fun (_, t) => linesOf t).filterMap line)) status

/-- Write lines from their ends to their beginnings. -/
def rev : Program := fun name args =>
  withOptions "" "" name args fun _ files => do
    let (texts, status) ← readAll plainComplaint name files
    let reversed (l : Text) : Text :=
      if l.getLast? = some '\n' then l.dropLast.reverse ++ ['\n'] else l.reverse
    write name ((texts.flatMap fun (_, t) => wholeLines t).flatMap reversed) status

end Program
end Posix
end EnvValues
