import Sitewright.Shell.Machine
/-!
# Utilities

The utilities that scripts call: copying, moving and removing files, making directories, printing, and
testing. Each gets its arguments and channels, and leaves a status.
-/
set_option autoImplicit false

namespace Sitewright.Shell

open FileTree (Flaw)

abbrev Utility := List Text → Channels → Machine → Machine

def complain (ch : Channels) (status : Nat) (line : Text) (m : Machine) : Machine :=
  (m.write ch.errors (line ++ ['\n'])).withStatus status

/-- Writes an error of the shell itself and leaves a status. -/
def complainOfShell (ch : Channels) (status : Nat) (words : Text) (m : Machine) : Machine :=
  complain ch status (m.called ++ ": 1: ".toList ++ words) m

/-- Writes an error about the arguments of a utility and leaves a status. -/
def misused (ch : Channels) (name words : Text) (m : Machine) : Machine :=
  complain ch 1 (name ++ ": ".toList ++ words ++ "\nTry '".toList ++ name ++
    " --help' for more information.".toList) m

def inQuotes (s : Text) : Text := '\'' :: s ++ ['\'']

/-- Refuses an option that a utility does not know; the letters that it knows are `known`. -/
def withOptions (name known : String) (options : Text) (ch : Channels) (m : Machine)
    (go : Machine → Machine) : Machine :=
  match options.find? fun c => !List.elem c known.toList with
  | some '-' => misused ch name.toList ("unrecognized option ".toList ++ inQuotes ('-' :: options)) m
  | some c => misused ch name.toList ("invalid option -- ".toList ++ inQuotes [c]) m
  | none => go (m.withStatus 0)

def problemWords : FileProblem → Text
  | .flaw f _ => f.words
  | .nulByte => "Invalid argument".toList

/-- The options among some arguments, as letters, and the operands. -/
def splitOptions (args : List Text) : Text × List Text :=
  match args with
  | [] => ([], [])
  | a :: rest =>
    if a = "--".toList then ([], rest)
    else match a with
      | '-' :: c :: cs =>
        let (letters, operands) := splitOptions rest
        ((c :: cs) ++ letters, operands)
      | _ =>
        let (letters, operands) := splitOptions rest
        (letters, a :: operands)

def endsWithSlash (s : Text) : Bool := Text.endsWith ['/'] s

def baseName (s : Text) : Text := (Path.ofText s).name

def insideOf (dir name : Text) : Text := if endsWithSlash dir then dir ++ name else dir ++ '/' :: name

def isDir (m : Machine) (s : Text) : Bool :=
  match m.disk.isDirectory (Path.ofText s) with
  | .ok b => b
  | .error _ => false

def isFileAt (m : Machine) (s : Text) : Bool :=
  match m.disk.isFile (Path.ofText s) with
  | .ok b => b
  | .error _ => false

def liesBelow (m : Machine) (top : Location) (s : Text) : Bool :=
  match m.disk.place (Path.ofText s) with
  | .ok (.entry loc _) => FileTree.isBelow top loc
  | .ok (.vacant loc) => FileTree.isBelow top loc
  | .error _ => false

/-! ## Printing -/

def octal? (c : Char) : Option Nat :=
  if 48 ≤ c.toNat && c.toNat ≤ 55 then some (c.toNat - 48) else none

/-- Up to three octal digits at the front of a text: their value, and the rest. -/
def octalRun (value : Nat) : Nat → Text → Nat × Text
  | 0, s => (value, s)
  | n + 1, s =>
    match s with
    | c :: rest =>
      match octal? c with
      | some d => octalRun (8 * value + d) n rest
      | none => (value, s)
    | [] => (value, [])

/-- Bytes with their backslash escapes replaced; nothing is written behind an escape that ends the
output. -/
def unescape : Nat → Bytes → Text → Bytes × Bool
  | 0, out, _ => (out, false)
  | _ + 1, out, [] => (out, false)
  | fuel + 1, out, '\\' :: c :: s =>
    match c with
    | 'a' => unescape fuel (out ++ [7]) s
    | 'b' => unescape fuel (out ++ [8]) s
    | 'f' => unescape fuel (out ++ [12]) s
    | 'n' => unescape fuel (out ++ [10]) s
    | 'r' => unescape fuel (out ++ [13]) s
    | 't' => unescape fuel (out ++ [9]) s
    | 'v' => unescape fuel (out ++ [11]) s
    | '\\' => unescape fuel (out ++ [92]) s
    | 'c' => (out, true)
    | _ =>
      match octal? c with
      | some _ =>
        let (value, rest) := octalRun 0 3 (if c = '0' then s else c :: s)
        unescape fuel (out ++ [UInt8.ofNat value]) rest
      | none => unescape fuel (out ++ Utf8.encode ['\\', c]) s
  | fuel + 1, out, c :: s => unescape fuel (out ++ Utf8.encodeChar c) s

def echo : Utility := fun args ch m =>
  let (newline, args) := match args with
    | a :: rest => if a = "-n".toList then (false, rest) else (true, args)
    | [] => (true, [])
  let s := Text.join [' '] args
  let (bytes, stopped) := unescape (s.length + 1) [] s
  (m.emit ch.output (bytes ++ if newline && !stopped then [10] else [])).withStatus 0

/-- A directive of a format: whether the text stands at the left, whether zeros fill it, its least
length, its number of digits or greatest length, and its letter. -/
structure Directive where
  atLeft : Bool
  zeros : Bool
  width : Nat
  precision : Option Nat
  letter : Char

/-- Digits at the front of a text, as a number, and the rest. -/
def leadingNumber (s : Text) : Nat × Text :=
  let digits := s.takeWhile Char.isDigit
  (digits.foldl (fun n c => 10 * n + (c.toNat - 48)) 0, s.drop digits.length)

def readDirective? (s : Text) : Option (Directive × Text) :=
  let flags := s.takeWhile fun c => c = '-' || c = '0'
  let (width, s) := leadingNumber (s.drop flags.length)
  let (precision, s) := match s with
    | '.' :: s => (some (leadingNumber s).1, (leadingNumber s).2)
    | s => (none, s)
  match s with
  | c :: s => some (⟨List.elem '-' flags, List.elem '0' flags, width, precision, c⟩, s)
  | [] => none

def Directive.pad (d : Directive) (s : Text) : Text :=
  let fill := d.width - s.length
  if d.atLeft then s ++ List.replicate fill ' ' else List.replicate fill ' ' ++ s

def Directive.number (d : Directive) (n : Int) : Text :=
  let digits := match d.letter with
    | 'x' => Nat.toDigits 16 n.natAbs
    | 'X' => (Nat.toDigits 16 n.natAbs).map Char.toUpper
    | 'o' => Nat.toDigits 8 n.natAbs
    | _ => Nat.toDigits 10 n.natAbs
  let sign := if n < 0 then ['-'] else []
  let least := match d.precision with
    | some p => p
    | none => if d.zeros && !d.atLeft then d.width - sign.length else 0
  d.pad (sign ++ List.replicate (least - digits.length) '0' ++ digits)

/-- The number at the front of an argument, and the words for what is wrong with it. -/
def numberOf (arg : Text) : Int × Option Text :=
  if arg.isEmpty then (0, none)
  else
    let (negative, body) := match arg with
      | '-' :: body => (true, body)
      | '+' :: body => (false, body)
      | body => (false, body)
    let (n, rest) := leadingNumber body
    (if negative then -(n : Int) else n,
      if rest.length = body.length then some (arg ++ ": expected numeric value".toList)
      else if rest.isEmpty then none
      else some (arg ++ ": not completely converted".toList))

/-- What a format has written: its bytes, what is wrong with its arguments, the arguments that are left,
and whether the output has been ended. -/
structure Formatted where
  bytes : Bytes
  wrong : List Text
  rest : List Text
  stopped : Bool

def formatOnce : Nat → Formatted → Text → Formatted
  | 0, f, _ => f
  | _ + 1, f, [] => f
  | fuel + 1, f, '%' :: s =>
    match readDirective? s with
    | none => { f with bytes := f.bytes ++ [37] }
    | some (d, s) =>
      let arg := f.rest.headD []
      let f' := { f with rest := f.rest.tail }
      match d.letter with
      | '%' => formatOnce fuel { f with bytes := f.bytes ++ [37] } s
      | 's' =>
        let shown := match d.precision with
          | some p => arg.take p
          | none => arg
        formatOnce fuel { f' with bytes := f.bytes ++ Utf8.encode (d.pad shown) } s
      | 'c' => formatOnce fuel { f' with bytes := f.bytes ++ Utf8.encode (d.pad (arg.take 1)) } s
      | 'b' =>
        let (bytes, stopped) := unescape (arg.length + 1) [] arg
        if stopped then { f' with bytes := f.bytes ++ bytes, stopped := true }
        else formatOnce fuel { f' with bytes := f.bytes ++ bytes } s
      | c =>
        if List.elem c "diuxXo".toList then
          let (n, wrong) := numberOf arg
          formatOnce fuel { f' with
            bytes := f.bytes ++ Utf8.encode (d.number n), wrong := f.wrong ++ wrong.toList } s
        else { f with wrong := f.wrong ++ ["%".toList ++ c :: ": invalid directive".toList],
                      stopped := true }
  | fuel + 1, f, '\\' :: c :: s =>
    match octal? c with
    | some _ =>
      let (value, rest) := octalRun 0 3 (c :: s)
      formatOnce fuel { f with bytes := f.bytes ++ [UInt8.ofNat value] } rest
    | none =>
      let (bytes, stopped) := unescape 3 [] ['\\', c]
      if stopped then { f with bytes := f.bytes ++ bytes, stopped := true }
      else formatOnce fuel { f with bytes := f.bytes ++ bytes } s
  | fuel + 1, f, c :: s => formatOnce fuel { f with bytes := f.bytes ++ Utf8.encodeChar c } s

/-- Uses a format again as long as arguments are left and each use takes some. -/
def formatAll (format : Text) : Nat → Formatted → Formatted
  | 0, f => f
  | fuel + 1, f =>
    let next := formatOnce (format.length + 1) f format
    if next.stopped || next.rest.isEmpty || next.rest.length = f.rest.length then next
    else formatAll format fuel next

def printf : Utility := fun args ch m =>
  match args with
  | [] => complainOfShell ch 2 "printf: usage: printf format [arg ...]".toList m
  | format :: rest =>
    let f := formatAll format (rest.length + 1) ⟨[], [], rest, false⟩
    f.wrong.foldl (fun m words => complainOfShell ch 1 ("printf: ".toList ++ words) m)
      ((m.emit ch.output f.bytes).withStatus 0)

/-! ## Files -/

/-- Writes the bytes of a file, or those of the input. -/
def catOne (ch : Channels) (m : Machine) (arg : Text) : Machine :=
  if arg = ['-'] then m.emit ch.output ch.input
  else match m.disk.readBytes (Path.ofText arg) with
    | .ok bytes => m.emit ch.output bytes
    | .error e => complain ch 1 ("cat: ".toList ++ arg ++ ": ".toList ++ problemWords e) m

def cat : Utility := fun args ch m =>
  let operands := (splitOptions (args.map fun a => if a = ['-'] then "./-".toList else a)).2
  let operands := operands.map fun a => if a = "./-".toList then ['-'] else a
  (if operands.isEmpty then [['-']] else operands).foldl (catOne ch) (m.withStatus 0)

/-- Copies one operand to a target; `tree` allows directories. -/
def copyOne (tree : Bool) (source target : Text) (ch : Channels) (m : Machine) : Machine :=
  let origin := Path.ofText source
  match m.disk.place origin with
  | .ok (.entry _ (.file bytes _)) =>
    if endsWithSlash target && !isDir m target then
      let words := match m.disk.place (Path.ofText target) with
        | .ok _ => "Not a directory".toList
        | .error e => problemWords e
      complain ch 1 ("cp: cannot create regular file ".toList ++ inQuotes target ++
        ": ".toList ++ words) m
    else if m.disk.sameEntry origin (Path.ofText target) then
      complain ch 1 ("cp: ".toList ++ inQuotes source ++ " and ".toList ++ inQuotes target ++
        " are the same file".toList) m
    else match m.disk.writeBytes (Path.ofText target) bytes with
      | .ok disk => { m with disk := disk }
      | .error e =>
        let words := if e = .flaw .notDirectory target then "cp: cannot stat ".toList
          else "cp: cannot create regular file ".toList
        complain ch 1 (words ++ inQuotes target ++ ": ".toList ++ problemWords e) m
  | .ok (.entry old .directory) =>
    if tree then
      if isFileAt m target then
        complain ch 1 ("cp: cannot overwrite non-directory ".toList ++ inQuotes target ++
          " with directory ".toList ++ inQuotes source) m
      else if liesBelow m old target then
        complain ch 1 ("cp: cannot copy a directory, ".toList ++ inQuotes source ++
          ", into itself, ".toList ++ inQuotes target) m
      else match m.disk.copyTree origin (Path.ofText target) with
      | (disk, .ok ()) => { m with disk := disk }
      | (disk, .error _) =>
        complain ch 1 ("cp: cannot copy ".toList ++ inQuotes source) { m with disk := disk }
    else
      complain ch 1 ("cp: -r not specified; omitting directory ".toList ++ inQuotes source) m
  | .ok (.vacant _) =>
    complain ch 1 ("cp: cannot stat ".toList ++ inQuotes source ++
      ": No such file or directory".toList) m
  | .error e =>
    complain ch 1 ("cp: cannot stat ".toList ++ inQuotes source ++ ": ".toList ++ problemWords e) m

/-- Does something with each source and its target: the last operand, or a place inside it where it is
a directory. -/
def toTarget (name : String) (each : Text → Text → Channels → Machine → Machine)
    (operands : List Text) (ch : Channels) (m : Machine) : Machine :=
  let m := m.withStatus 0
  match operands.reverse with
  | [] => misused ch name.toList "missing file operand".toList m
  | [only] =>
    misused ch name.toList ("missing destination file operand after ".toList ++ inQuotes only) m
  | target :: sources =>
    let dir := isDir m target
    if sources.length > 1 && !dir then
      complain ch 1 (name.toList ++ ": target ".toList ++ inQuotes target ++
        ": No such file or directory".toList) m
    else
      sources.reverse.foldl (fun m source =>
        each source (if dir then insideOf target (baseName source) else target) ch m) m

/-- Copies files, and directories where an option asks for it. -/
def cp : Utility := fun args ch m =>
  let (options, operands) := splitOptions args
  let tree := options.any fun c => c = 'r' || c = 'R' || c = 'a'
  withOptions "cp" "abdfiHlLnpPrRsStTuvxZ" options ch m (toTarget "cp" (copyOne tree) operands ch)

def moveBranch (tree : FileTree) (old new : Location) : FileTree :=
  let moved := tree.filterMap fun item =>
    (FileTree.below? old item.1).map fun rest => (new ++ rest, item.2)
  FileTree.prune new (FileTree.prune old tree) ++ moved

def moveOne (source target : Text) (ch : Channels) (m : Machine) : Machine :=
  match m.disk.place (Path.ofText source), m.disk.place (Path.ofText target) with
  | .ok (.entry old _), .ok (.entry new _) =>
    if old = new then
      complain ch 1 ("mv: ".toList ++ inQuotes source ++ " and ".toList ++ inQuotes target ++
        " are the same file".toList) m
    else if isDir m source && !isDir m target then
      complain ch 1 ("mv: cannot overwrite non-directory ".toList ++ inQuotes target ++
        " with directory ".toList ++ inQuotes source) m
    else { m with disk := { m.disk with tree := moveBranch m.disk.tree old new } }
  | .ok (.entry old e), .ok (.vacant new) =>
    if FileTree.isBelow old new then
      complain ch 1 ("mv: cannot move ".toList ++ inQuotes source ++
        " to a subdirectory of itself, ".toList ++ inQuotes target) m
    else if endsWithSlash target && e ≠ .directory then
      complain ch 1 ("mv: cannot move ".toList ++ inQuotes source ++ " to ".toList ++
        inQuotes target ++ ": Not a directory".toList) m
    else { m with disk := { m.disk with tree := moveBranch m.disk.tree old new } }
  | .ok (.entry _ _), .error e =>
    complain ch 1 ("mv: cannot move ".toList ++ inQuotes source ++ " to ".toList ++
      inQuotes target ++ ": ".toList ++ problemWords e) m
  | _, _ =>
    complain ch 1 ("mv: cannot stat ".toList ++ inQuotes source ++
      ": No such file or directory".toList) m

def mv : Utility := fun args ch m =>
  let (options, operands) := splitOptions args
  withOptions "mv" "bfinStTuvZ" options ch m (toTarget "mv" moveOne operands ch)

/-- Removes one operand: a directory with all in it where `tree` asks for it, an empty one where `bare`
does. -/
def removeOne (tree bare quiet : Bool) (ch : Channels) (m : Machine) (arg : Text) : Machine :=
  match m.disk.place (Path.ofText arg) with
  | .ok (.entry loc (.file _ _)) =>
    { m with disk := { m.disk with tree := FileTree.erase loc m.disk.tree } }
  | .ok (.entry loc .directory) =>
    if tree || bare && FileTree.isEmptyDir loc m.disk.tree then
      { m with disk := { m.disk with tree := FileTree.prune loc m.disk.tree } }
    else if bare then
      complain ch 1 ("rm: cannot remove ".toList ++ inQuotes arg ++ ": Directory not empty".toList) m
    else complain ch 1 ("rm: cannot remove ".toList ++ inQuotes arg ++ ": Is a directory".toList) m
  | .ok (.vacant _) =>
    if quiet then m
    else complain ch 1 ("rm: cannot remove ".toList ++ inQuotes arg ++
      ": No such file or directory".toList) m
  | .error e =>
    if quiet then m
    else complain ch 1 ("rm: cannot remove ".toList ++ inQuotes arg ++ ": ".toList ++
      problemWords e) m

/-- Removes files, and directories where an option asks for it. -/
def rm : Utility := fun args ch m =>
  let (options, operands) := splitOptions args
  let has := fun c => List.elem c options
  withOptions "rm" "dfiIrRv" options ch m fun m =>
    if operands.isEmpty && !has 'f' then misused ch "rm".toList "missing operand".toList m
    else operands.foldl (removeOne (has 'r' || has 'R') (has 'd') (has 'f') ch) m

/-- Makes one directory, with those above it where `parents` asks for it. -/
def makeOne (parents : Bool) (ch : Channels) (m : Machine) (arg : Text) : Machine :=
  let words := fun (shown : Text) (e : FileProblem) =>
    "mkdir: cannot create directory ".toList ++ inQuotes shown ++ ": ".toList ++ problemWords e
  let path := Path.ofText arg
  if parents then
    match m.disk.ensureDirectories path with
    | (disk, .ok ()) => { m with disk := disk }
    | (disk, .error e) =>
      let fronts := (List.range path.parts.length).map fun n =>
        (⟨path.anchor, path.parts.take n⟩ : Path).toText
      complain ch 1 (words ((fronts.find? (isFileAt m)).getD arg) e) { m with disk := disk }
  else
    match m.disk.makeDirectory path with
    | .ok disk => { m with disk := disk }
    | .error e => complain ch 1 (words arg e) m

def mkdir : Utility := fun args ch m =>
  let (options, operands) := splitOptions args
  withOptions "mkdir" "mpvZ" options ch m fun m =>
    if operands.isEmpty then misused ch "mkdir".toList "missing operand".toList m
    else operands.foldl (makeOne (List.elem 'p' options) ch) m

def rmdir : Utility := fun args ch m =>
  if args.isEmpty then misused ch "rmdir".toList "missing operand".toList m
  else (splitOptions args).2.foldl (fun m arg =>
    match m.disk.removeDirectory (Path.ofText arg) with
    | .ok disk => { m with disk := disk }
    | .error e =>
      complain ch 1 ("rmdir: failed to remove ".toList ++ inQuotes arg ++ ": ".toList ++
        problemWords e) m) (m.withStatus 0)

/-- Makes files, or gives those that are there a new time. -/
def touch : Utility := fun args ch m =>
  if args.isEmpty then misused ch "touch".toList "missing file operand".toList m
  else (splitOptions args).2.foldl (fun m arg =>
    match m.disk.place (Path.ofText arg) with
    | .ok (.entry loc (.file bytes _)) => { m with disk := m.disk.store loc bytes }
    | .ok (.entry _ .directory) => m
    | .ok (.vacant loc) => { m with disk := m.disk.store loc [] }
    | .error e =>
      complain ch 1 ("touch: cannot touch ".toList ++ inQuotes arg ++ ": ".toList ++
        problemWords e) m) (m.withStatus 0)

/-- The lines for the names in a directory, those of hidden files only where `all` asks for them. -/
def nameLines (all : Bool) (names : List Text) : Text :=
  (names.filter fun n => all || !Text.startsWith ['.'] n).flatMap fun n => n ++ ['\n']

/-- Lists directories and files: what is missing first, then the files, then each directory, under its
name where there are several operands. -/
def ls : Utility := fun args ch m =>
  let (options, operands) := splitOptions args
  let has := fun c => List.elem c options
  let operands := Text.sorted (if operands.isEmpty then [['.']] else operands)
  let kind := fun (arg : Text) =>
    match m.disk.look (Path.ofText arg) with
    | .ok (some .directory) => if has 'd' then some false else some true
    | .ok (some (.file _ _)) => some false
    | _ => none
  let missing := operands.filter fun arg => (kind arg).isNone
  let files := operands.filter fun arg => kind arg = some false
  let directories := operands.filter fun arg => kind arg = some true
  let listed := directories.map fun arg =>
    let names := match m.disk.list (Path.ofText arg) with
      | .ok names => if has 'a' then ['.'] :: ['.', '.'] :: names else names
      | .error _ => []
    (if operands.length > 1 then arg ++ ":\n".toList else []) ++
      nameLines (has 'a' || has 'A') names
  let blocks := (if files.isEmpty then [] else [files.flatMap fun f => f ++ ['\n']]) ++ listed
  let m := missing.foldl (fun m arg =>
    complain ch 2 ("ls: cannot access ".toList ++ inQuotes arg ++
      ": No such file or directory".toList) m) (m.withStatus 0)
  m.write ch.output (Text.join ['\n'] blocks)

/-! ## Tests -/

abbrev TestProblem := Text

def testNumber (s : Text) : Except TestProblem Int :=
  match Integer.read s with
  | .ok n => .ok n
  | .error _ => .error ("Illegal number: ".toList ++ s)

def unaryOperators : List Text :=
  ["-n".toList, "-z".toList, "-e".toList, "-r".toList, "-w".toList, "-x".toList, "-f".toList,
    "-d".toList, "-s".toList]

def unaryTest (m : Machine) (op arg : Text) : Bool :=
  let look := match m.disk.look (Path.ofText arg) with
    | .ok found => if arg.isEmpty then none else found
    | .error _ => none
  match String.ofList op with
  | "-n" => !arg.isEmpty
  | "-z" => arg.isEmpty
  | "-f" => match look with
    | some (.file _ _) => true
    | _ => false
  | "-d" | "-x" => match look with
    | some .directory => true
    | _ => false
  | "-s" => match look with
    | some (.file bytes _) => !bytes.isEmpty
    | some .directory => true
    | none => false
  | _ => look.isSome

def comparison? (op : Text) : Option (Int → Int → Bool) :=
  match String.ofList op with
  | "-eq" => some fun a b => decide (a = b)
  | "-ne" => some fun a b => decide (a ≠ b)
  | "-lt" => some fun a b => decide (a < b)
  | "-le" => some fun a b => decide (a ≤ b)
  | "-gt" => some fun a b => decide (a > b)
  | "-ge" => some fun a b => decide (a ≥ b)
  | _ => none

/-- A test with two operands, if the operator is one of those. -/
def binaryTest? (a op b : Text) : Option (Except TestProblem Bool) :=
  if op = ['='] then some (.ok (decide (a = b)))
  else if op = "!=".toList then some (.ok (decide (a ≠ b)))
  else (comparison? op).map fun compare => do return compare (← testNumber a) (← testNumber b)

/-- The operator is one that stands between two operands. -/
def isBinary (op : Text) : Bool := (binaryTest? ['0'] op ['0']).isSome

def holdsTest (m : Machine) : List Text → Except TestProblem Bool
  | [] => .ok false
  | [a] => .ok !a.isEmpty
  | [a, op] =>
    if a = ['!'] then .ok op.isEmpty
    else if a ∈ unaryOperators then .ok (unaryTest m a op)
    else if isBinary op then .error (op ++ ": argument expected".toList)
    else .error (a ++ ": unexpected operator".toList)
  | a :: op :: b :: rest =>
    match binaryTest? a op b with
    | some result =>
      match rest with
      | [] => result
      | more :: _ => .error ((if more = "-a".toList || more = "-o".toList then more else b) ++
          ": unexpected operator".toList)
    | none =>
      if a = ['!'] then (holdsTest m (op :: b :: rest)).map not
      else .error (a ++ ": unexpected operator".toList)

def testAs (name : Text) (args : List Text) : Channels → Machine → Machine := fun ch m =>
  match holdsTest m args with
  | .ok true => m.withStatus 0
  | .ok false => m.withStatus 1
  | .error words => complainOfShell ch 2 (name ++ ": ".toList ++ words) m

def test : Utility := testAs "test".toList

def bracket : Utility := fun args ch m =>
  if args.getLast? = some [']'] then testAs ['['] args.dropLast ch m
  else complainOfShell ch 2 "[: missing ]".toList m

/-! ## The rest -/

def workingDirectory (m : Machine) : Text := (Path.ofLocation m.disk.here).toText

def pwd : Utility := fun _ ch m =>
  (m.write ch.output (workingDirectory m ++ ['\n'])).withStatus 0

/-- Changes the working directory, to the one before this one for a dash, whose path is then shown. -/
def cd : Utility := fun args ch m =>
  let back := args.head? = some ['-']
  let target := if back then (m.valueAt "OLDPWD".toList).getD ['.']
    else args.headD ((m.valueAt "HOME".toList).getD [])
  match m.disk.place (Path.ofText target) with
  | .ok (.entry loc .directory) =>
    let values := Keyed.put "OLDPWD".toList (workingDirectory m) m.values
    let m := { m with disk := { m.disk with here := loc }, status := 0, values := values }
    if back then m.write ch.output (workingDirectory m ++ ['\n']) else m
  | _ => complainOfShell ch 2 ("cd: can't cd to ".toList ++ target) m

def printenv : Utility := fun args ch m =>
  args.foldl (fun m name =>
    match (m.valueAt name).filter fun _ => List.elem name m.exported with
    | some v => m.write ch.output (v ++ ['\n'])
    | none => m.withStatus 1) (m.withStatus 0)

def exportVariables : Utility := fun args _ m =>
  args.foldl (fun m arg =>
    let name := arg.takeWhile (· ≠ '=')
    let m := { m with exported := name :: m.exported }
    match arg.drop name.length with
    | _ :: value => { m with values := Keyed.put name value m.values }
    | [] => m) (m.withStatus 0)

def unset : Utility := fun args _ m =>
  { m with values := args.foldl (fun values name => Keyed.remove name values) m.values, status := 0 }

/-- The last part of a path, without an ending. -/
def basename : Utility := fun args ch m =>
  let name := baseName (args.headD [])
  let ending := (args.drop 1).headD []
  let name :=
    if !ending.isEmpty && ending.length < name.length && Text.endsWith ending name then
      name.take (name.length - ending.length)
    else name
  (m.write ch.output (name ++ ['\n'])).withStatus 0

def dirname : Utility := fun args ch m =>
  (m.write ch.output ((Path.ofText (args.headD [])).parent.toText ++ ['\n'])).withStatus 0

def exitShell : Utility := fun args ch m =>
  match args with
  | [] => { m with ended := true }
  | a :: _ =>
    if !a.isEmpty && a.all Char.isDigit then
      { m with status := (leadingNumber a).1 % 256, ended := true }
    else { complainOfShell ch 2 ("exit: Illegal number: ".toList ++ a) m with ended := true }

/-- The options that a shell may be set to, by their letters. -/
def setOption (on : Bool) (m : Machine) (letter : Char) : Machine :=
  if letter = 'e' then { m with strict := on }
  else if letter = 'u' then { m with careful := on }
  else m

def setShell : Utility := fun args ch m =>
  let m := m.withStatus 0
  match args with
  | (sign :: letters) :: rest =>
    if sign = '-' || sign = '+' then
      let on := sign = '-'
      let m := letters.foldl (setOption on) m
      if List.elem 'o' letters then
        let name := rest.headD []
        if name = "errexit".toList then setOption on m 'e'
        else if name = "nounset".toList then setOption on m 'u'
        else if name.isEmpty then m
        else
          { complainOfShell ch 2 ("set: Illegal option ".toList ++ sign :: "o ".toList ++ name) m with
            ended := true }
      else m
    else m
  | _ => m

def ownNumber : Text := "4242".toList

def signalNumber (s : Text) : Nat :=
  match String.ofList s with
  | "KILL" | "SIGKILL" => 9
  | "TERM" | "SIGTERM" => 15
  | "INT" | "SIGINT" => 2
  | "HUP" | "SIGHUP" => 1
  | _ => (leadingNumber s).1

def killUsage : Text :=
  "kill: Usage: kill [-s sigspec | -signum | -sigspec] [pid | job]... or\nkill -l [exitstatus]".toList

/-- Sends the shell a signal, which ends it unless it is none. -/
def kill : Utility := fun args ch m =>
  let (signal, targets) := match args with
    | a :: rest =>
      if a = "-s".toList then (signalNumber (rest.headD []), rest.tail)
      else match a with
        | '-' :: s => (signalNumber s, rest)
        | _ => (15, args)
    | [] => (15, [])
  match targets with
  | [] => complainOfShell ch 2 killUsage m
  | pid :: _ =>
    if !pid.all Char.isDigit then
      complainOfShell ch 2 ("kill: Illegal number: ".toList ++ pid) m
    else if pid ≠ ownNumber then
      complainOfShell ch 1 "kill: No such process\n".toList m
    else if signal = 0 then m.withStatus 0
    else { m with ended := true, signal := some signal }

def utilities : Keyed Utility :=
  [("true".toList, fun _ _ m => m.withStatus 0), (":".toList, fun _ _ m => m.withStatus 0),
    ("false".toList, fun _ _ m => m.withStatus 1), ("echo".toList, echo),
    ("printf".toList, printf), ("cat".toList, cat), ("cp".toList, cp), ("mv".toList, mv),
    ("rm".toList, rm), ("mkdir".toList, mkdir), ("rmdir".toList, rmdir), ("touch".toList, touch),
    ("ls".toList, ls), ("test".toList, test),
    ("[".toList, bracket), ("pwd".toList, pwd),
    ("cd".toList, cd), ("printenv".toList, printenv), ("export".toList, exportVariables),
    ("unset".toList, unset), ("basename".toList, basename), ("dirname".toList, dirname),
    ("exit".toList, exitShell), ("kill".toList, kill),
    ("sleep".toList, fun _ _ m => m.withStatus 0), ("set".toList, setShell),
    ("wait".toList, fun _ _ m => m.withStatus 0)]

end Sitewright.Shell
