import Sitewright.Shell.Calculation
import Sitewright.Shell.Syntax
import Sitewright.Shell.Utility
import Sitewright.Text.Wildcard
/-!
# Running scripts

Words are expanded (variables and outputs are put in, the result is split at blanks and matched with
the names of files), and commands are run one after the other. `fuel` bounds the number of steps, so
that a script that would go on for ever ends with a failure.
-/
set_option autoImplicit false

namespace Sitewright.Shell

/-! ## Fields -/

/-- A piece of an expanded word: a character, quoted or not, that may part fields where it is a blank,
or quotes that make a field even where it is empty. -/
inductive Bit where
  | char (c : Char) (quoted splits : Bool)
  | quotes
deriving DecidableEq, Repr

/-- A field before it is matched with the names of files. -/
abbrev Field := List (Char × Bool)

def isFieldBlank (c : Char) : Bool := c = ' ' || c = '\t' || c = '\n'

/-- Parts an expanded word into fields; `field` is the open one, in reverse, if there is one. -/
def fieldsFrom (done : List Field) (field : Option Field) : List Bit → List Field
  | [] => (match field with
      | some f => f.reverse :: done
      | none => done).reverse
  | .quotes :: rest => fieldsFrom done (some (field.getD [])) rest
  | .char c quoted splits :: rest =>
    if splits && isFieldBlank c then
      match field with
      | some f => fieldsFrom (f.reverse :: done) none rest
      | none => fieldsFrom done none rest
    else fieldsFrom done (some ((c, quoted) :: field.getD [])) rest

def fieldText (f : Field) : Text := f.map Prod.fst

/-! ## Names of files -/

def inClass (c : Char) : Text → Bool
  | a :: '-' :: b :: rest => (a ≤ c && c ≤ b) || inClass c rest
  | a :: rest => a = c || inClass c rest
  | [] => false

def patternOf : Nat → Field → List Wildcard.Part
  | 0, _ => []
  | _ + 1, [] => []
  | fuel + 1, (c, quoted) :: rest =>
    if quoted then .exact c :: patternOf fuel rest
    else if c = '*' then .anyRun :: patternOf fuel rest
    else if c = '?' then .anyOne :: patternOf fuel rest
    else if c = '[' then
      let body := rest.takeWhile fun d => d.1 ≠ ']'
      match rest.drop body.length, fieldText body with
      | _ :: more, '!' :: among => .oneOf (fun d => !inClass d among) :: patternOf fuel more
      | _ :: more, among => .oneOf (fun d => inClass d among) :: patternOf fuel more
      | [], _ => .exact c :: patternOf fuel rest
    else .exact c :: patternOf fuel rest

def isPattern (f : Field) : Bool := f.any fun c => !c.2 && List.elem c.1 "*?[".toList

def segmentsFrom (done : List Field) (segment : Field) : Field → List Field
  | [] => (segment.reverse :: done).reverse
  | c :: rest =>
    if c.1 = '/' then segmentsFrom (segment.reverse :: done) [] rest
    else segmentsFrom done (c :: segment) rest

/-- The names in a directory that a segment matches; hidden ones only where it begins with a dot. -/
def matchingNames (disk : Disk) (dir : Text) (segment : Field) : List Text :=
  match disk.list (Path.ofText (if dir.isEmpty then ['.'] else dir)) with
  | .error _ => []
  | .ok names =>
    let pattern := patternOf (segment.length + 1) segment
    names.filter fun n =>
      Wildcard.fits pattern n && (!Text.startsWith ['.'] n || (fieldText segment).head? = some '.')

/-- The paths that segments match, each behind the text of a directory. -/
def matchingPaths (disk : Disk) (dirs : List Text) : List Field → List Text
  | [] => dirs
  | segment :: rest =>
    let dirs := dirs.flatMap fun dir =>
      if isPattern segment then (matchingNames disk dir segment).map (dir ++ ·)
      else [dir ++ fieldText segment]
    match rest with
    | [] => dirs.filter fun d =>
        match disk.look (Path.ofText d) with
        | .ok (some _) => true
        | _ => false
    | _ => matchingPaths disk (dirs.map (· ++ ['/'])) rest

/-- The texts that a field stands for: the names of the files that it matches, or itself. -/
def globField (disk : Disk) (f : Field) : List Text :=
  if isPattern f then
    match matchingPaths disk [[]] (segmentsFrom [] [] f) with
    | [] => [fieldText f]
    | paths => Text.sorted paths
  else [fieldText f]

/-! ## Variables -/

/-- The text without the longest or the shortest front that matches a pattern. -/
def cutFront (longest : Bool) (pattern : List Wildcard.Part) (s : Text) : Text :=
  let sizes := List.range (s.length + 1)
  match (if longest then sizes.reverse else sizes).find? fun n => Wildcard.fits pattern (s.take n) with
  | some n => s.drop n
  | none => s

/-- The text without the longest or the shortest back that matches a pattern. -/
def cutBack (longest : Bool) (pattern : List Wildcard.Part) (s : Text) : Text :=
  let sizes := List.range (s.length + 1)
  match (if longest then sizes else sizes.reverse).find? fun n => Wildcard.fits pattern (s.drop n) with
  | some n => s.take n
  | none => s

/-- The value of a variable, the special ones included. -/
def valueOf (m : Machine) (name : Text) : Option Text :=
  match name with
  | ['?'] => some (Integer.ofNat m.status)
  | ['#'] => some ['0']
  | ['$'] => some ownNumber
  | ['0'] => some m.called
  | ['@'] | ['*'] => some []
  | _ => if name = "PWD".toList then some (workingDirectory m) else m.valueAt name

def failWord (ch : Channels) (words : Text) (m : Machine) : Machine :=
  { complainOfShell ch 2 words m with ended := true }

def missingWords (name argument : Text) (whenEmpty : Bool) : Text :=
  name ++ ": ".toList ++
    if !argument.isEmpty then argument
    else if whenEmpty then "parameter not set or null".toList
    else "parameter not set".toList

def bitsOf (quoted : Bool) (s : Text) : List Bit := s.map fun c => .char c quoted (!quoted)

def withoutLineEnds (s : Text) : Text := Text.trimEnd (· = '\n') s

/-! ## Redirections -/

def openOutput (append : Bool) (target : Text) (ch : Channels) (m : Machine) :
    Except Text (Sink × Machine) :=
  if target = "/dev/null".toList then .ok (.nowhere, m)
  else if target = "/dev/stdout".toList then .ok (ch.output, m)
  else if target = "/dev/stderr".toList then .ok (ch.errors, m)
  else
    let refuse := fun (words : Text) =>
      Except.error ("cannot create ".toList ++ target ++ ": ".toList ++ words)
    if target.isEmpty then refuse "Directory nonexistent".toList
    else match m.disk.place (Path.ofText target) with
      | .ok (.entry loc (.file _ _)) =>
        if append then .ok (.file loc, m)
        else .ok (.file loc, { m with disk := m.disk.store loc [] })
      | .ok (.entry _ .directory) => refuse "Is a directory".toList
      | .ok (.vacant loc) =>
        if endsWithSlash target then refuse "Is a directory".toList
        else .ok (.file loc, { m with disk := m.disk.store loc [] })
      | .error (.flaw .missing _) => refuse "Directory nonexistent".toList
      | .error (.flaw .notDirectory _) => refuse "Directory nonexistent".toList
      | .error e => refuse (problemWords e)

def openInput (target : Text) (m : Machine) : Except Text Bytes :=
  if target = "/dev/null".toList then .ok []
  else match m.disk.readBytes (Path.ofText target) with
    | .ok bytes => .ok bytes
    | .error (.flaw .missing _) =>
      .error ("cannot open ".toList ++ target ++ ": No such file".toList)
    | .error _ => .ok []

def redirectOne (channel : Nat) (operator target : Text) (ch : Channels) (m : Machine) :
    Except Text (Channels × Machine) :=
  if operator = ">&".toList then
    let sink := if target = ['1'] then ch.output
      else if target = ['2'] then ch.errors
      else .nowhere
    .ok (if channel = 2 then { ch with errors := sink } else { ch with output := sink }, m)
  else if operator = ['<'] then (openInput target m).map fun bytes => ({ ch with input := bytes }, m)
  else if operator = "<&".toList then .ok (ch, m)
  else (openOutput (operator = ">>".toList) target ch m).map fun found =>
    (if channel = 2 then { ch with errors := found.1 } else { ch with output := found.1 }, found.2)

/-! ## Running -/

/-- The script holds an output that is put into a word. -/
def hasOutput (w : Word) : Bool := w.any fun
  | .output _ _ => true
  | _ => false

/-- Does something during which a command may fail although the shell is strict. -/
def guard (step : Machine → Machine) (m : Machine) : Machine :=
  { step { m with guarded := true } with guarded := m.guarded }

/-- The name of a utility without the directory of all utilities. -/
def utilityName (name : Text) : Text :=
  ((Text.after? "/bin/".toList name).orElse fun _ => Text.after? "/usr/bin/".toList name).getD name

def exhausted (m : Machine) : Machine := { m with status := 1, ended := true }

mutual

def expandWord : Nat → Channels → Word → Machine → List Bit × Machine
  | 0, _, _, m => ([], exhausted m)
  | _ + 1, _, [], m => ([], m)
  | fuel + 1, ch, part :: rest, m =>
    let (bits, m) := expandPart fuel ch part m
    let (more, m) := expandWord fuel ch rest m
    (bits ++ more, m)

def expandPart : Nat → Channels → Part → Machine → List Bit × Machine
  | 0, _, _, m => ([], exhausted m)
  | fuel + 1, ch, part, m =>
    match part with
    | .char c quoted => ([.char c quoted false], m)
    | .quotes => ([.quotes], m)
    | .output script quoted =>
      let (n, inner) := m.newBuffer
      let inner := runScript fuel { ch with output := .buffer n } script inner
      let s := withoutLineEnds (Utf8.decodeLossy (inner.buffer n))
      (bitsOf quoted s, m.afterSubshell inner)
    | .badUse => ([], failWord ch "Bad substitution".toList m)
    | .calculation terms quoted =>
      let (s, m) := argumentText fuel ch terms m
      match Calculation.value m.values s with
      | .ok n => (bitsOf quoted (Integer.ofInt n), m)
      | .error e =>
        ([], failWord ch ("arithmetic expression: ".toList ++ e.words ++ ": ".toList ++
          inDoubleQuotes s) m)
    | .variable name use argument quoted =>
      let value := valueOf m name
      let missing := fun (whenEmpty : Bool) => match value with
        | none => true
        | some v => whenEmpty && v.isEmpty
      match use with
      | .plain =>
        if value.isNone && m.careful then ([], failWord ch (missingWords name [] false) m)
        else (bitsOf quoted (value.getD []), m)
      | .required whenEmpty =>
        if missing whenEmpty then
          let (s, m) := argumentText fuel ch argument m
          ([], failWord ch (missingWords name s whenEmpty) m)
        else (bitsOf quoted (value.getD []), m)
      | .length => (bitsOf quoted (Integer.ofNat (value.getD []).length), m)
      | .otherwise whenEmpty =>
        if missing whenEmpty then expandArgument fuel ch quoted argument m
        else (bitsOf quoted (value.getD []), m)
      | .assign whenEmpty =>
        if missing whenEmpty then
          let (s, m) := argumentText fuel ch argument m
          (bitsOf quoted s, { m with values := Keyed.put name s m.values })
        else (bitsOf quoted (value.getD []), m)
      | .alternative whenEmpty =>
        if missing whenEmpty then ([], m) else expandArgument fuel ch quoted argument m
      | .withoutFront longest =>
        let (field, m) := argumentField fuel ch argument m
        (bitsOf quoted (cutFront longest (patternOf (field.length + 1) field) (value.getD [])), m)
      | .withoutBack longest =>
        let (field, m) := argumentField fuel ch argument m
        (bitsOf quoted (cutBack longest (patternOf (field.length + 1) field) (value.getD [])), m)

def expandArgument : Nat → Channels → Bool → Text → Machine → List Bit × Machine
  | 0, _, _, _, m => ([], exhausted m)
  | fuel + 1, ch, quoted, argument, m =>
    let (s, m) := argumentText fuel ch argument m
    (bitsOf quoted s, m)

def argumentText : Nat → Channels → Text → Machine → Text × Machine
  | 0, _, _, m => ([], exhausted m)
  | fuel + 1, ch, argument, m =>
    let (field, m) := argumentField fuel ch argument m
    (fieldText field, m)

def argumentField : Nat → Channels → Text → Machine → Field × Machine
  | 0, _, _, m => ([], exhausted m)
  | fuel + 1, ch, argument, m =>
    let blanks := argument.map fun c => if endsWord c then ('\\', c) else (c, c)
    let escaped := blanks.flatMap fun p => if p.1 = p.2 then [p.1] else [p.1, p.2]
    match readWord (4 * argument.length + 4) false [] escaped with
    | .error _ => ([], m)
    | .ok (w, _) =>
      let (bits, m) := expandWord fuel ch w m
      (bits.filterMap fun
        | .char c quoted _ => some (c, quoted)
        | .quotes => none, m)

def expandWords : Nat → Channels → List Word → Machine → List Text × Machine
  | 0, _, _, m => ([], exhausted m)
  | _ + 1, _, [], m => ([], m)
  | fuel + 1, ch, w :: rest, m =>
    let (bits, m) := expandWord fuel ch w m
    let texts := (fieldsFrom [] none bits).flatMap (globField m.disk)
    let (more, m) := expandWords fuel ch rest m
    (texts ++ more, m)

/-- The text that a word stands for where it is not parted into fields. -/
def expandSingle : Nat → Channels → Word → Machine → Text × Machine
  | 0, _, _, m => ([], exhausted m)
  | fuel + 1, ch, w, m =>
    let (bits, m) := expandWord fuel ch w m
    (bits.filterMap fun
      | .char c _ _ => some c
      | .quotes => none, m)

/-- Redirects channels, or tells what is wrong with a redirection. -/
def redirectAll : Nat → Channels → List Redirect → Machine → Except Text Channels × Machine
  | 0, _, _, m => (.error [], exhausted m)
  | _ + 1, ch, [], m => (.ok ch, m)
  | fuel + 1, ch, r :: rest, m =>
    let (target, m) := expandSingle fuel ch r.target m
    match redirectOne r.channel r.operator target ch m with
    | .error words => (.error words, m)
    | .ok (ch, m) => redirectAll fuel ch rest m

def assignAll : Nat → Channels → List (Text × Word) → Machine → Machine
  | 0, _, _, m => exhausted m
  | _ + 1, _, [], m => m
  | fuel + 1, ch, (name, w) :: rest, m =>
    let (value, m) := expandSingle fuel ch w m
    assignAll fuel ch rest { m with values := Keyed.put name value m.values }

def call : Nat → Channels → Text → List Text → Machine → Machine
  | 0, _, _, _, m => exhausted m
  | fuel + 1, ch, name, args, m =>
    match Keyed.get? (utilityName name) utilities with
    | some u => u args ch m
    | none => callShell fuel ch name args m

/-- Runs what is a matter of the shell itself, or nothing that there is. -/
def callShell : Nat → Channels → Text → List Text → Machine → Machine
  | 0, _, _, _, m => exhausted m
  | fuel + 1, ch, name, args, m =>
    match String.ofList (utilityName name) with
    | "sh" | "dash" | "bash" =>
      match args with
      | a :: script :: _ =>
        if a = "-c".toList then m.afterSubshell (runScript fuel ch script m.forCommand)
        else runFile fuel ch a m
      | [a] =>
        if a = "-c".toList then complain ch 2 "sh: 0: -c requires an argument".toList m
        else runFile fuel ch a m
      | [] => m.afterSubshell (runScript fuel ch (Utf8.decodeLossy ch.input) m.forCommand)
    | "eval" => runScript fuel ch (Text.join [' '] args) (m.withStatus 0)
    | "command" =>
      match args with
      | name :: args => call fuel ch name args m
      | [] => m.withStatus 0
    | "exec" =>
      match args with
      | name :: args => { call fuel ch name args m with ended := true }
      | [] => m.withStatus 0
    | "env" =>
      match args.dropWhile fun a => List.elem '=' a with
      | name :: args => call fuel ch name args m
      | [] => m.withStatus 0
    | "return" => exitShell args ch m
    | _ =>
      if List.elem '/' name then
        match m.disk.look (Path.ofText name) with
        | .ok (some _) => complainOfShell ch 126 (name ++ ": Permission denied".toList) m
        | _ => complainOfShell ch 127 (name ++ ": not found".toList) m
      else if name.isEmpty then complainOfShell ch 127 ": Permission denied".toList m
      else complainOfShell ch 127 (name ++ ": not found".toList) m

def runFile : Nat → Channels → Text → Machine → Machine
  | 0, _, _, m => exhausted m
  | fuel + 1, ch, file, m =>
    match m.disk.readBytes (Path.ofText file) with
    | .ok bytes =>
      m.afterSubshell (runScript fuel ch (Utf8.decodeLossy bytes) { m.forCommand with called := file })
    | .error _ => complain ch 2 ("sh: 0: cannot open ".toList ++ file ++ ": No such file".toList) m

def run : Nat → Channels → Command → Machine → Machine
  | 0, _, _, m => exhausted m
  | fuel + 1, ch, c, m =>
    if m.ended then m
    else match c with
      | .simple assignments words redirects =>
        let (texts, m) := expandWords fuel ch words m
        if m.ended then m
        else match redirectAll fuel ch redirects m with
          | (.error words, m) => (complainOfShell ch 2 words m).settled
          | (.ok ch, m) =>
            if m.ended then m
            else match texts with
              | [] =>
                let after := assignAll fuel ch assignments m
                if after.ended || assignments.any fun a => hasOutput a.2 then after.settled
                else after.withStatus 0
              | name :: args =>
                let set := assignAll fuel ch assignments m
                let given := { set with exported := assignments.map Prod.fst ++ set.exported }
                let after := call fuel ch name args (if assignments.isEmpty then m else given)
                (if assignments.isEmpty then after
                  else { after with values := m.values, exported := m.exported }).settled
      | .pipeline stages => (runStages fuel ch stages m).settled
      | .negated c =>
        let m := guard (run fuel ch c) m
        if m.ended then m else m.withStatus (if m.status = 0 then 1 else 0)
      | .both a b =>
        let m := guard (run fuel ch a) m
        if m.status = 0 then run fuel ch b m else m
      | .either a b =>
        let m := guard (run fuel ch a) m
        if m.status = 0 then m else run fuel ch b m
      | .sequence cs => runAll fuel ch cs m
      | .subshell c => (m.afterSubshell (run fuel ch c m)).settled
      | .choice w cases =>
        let (s, m) := expandSingle fuel ch w m
        runChoice fuel ch s cases (m.withStatus 0)
      | .condition test yes no =>
        let m := guard (run fuel ch test) m
        if m.ended then m
        else if m.status = 0 then run fuel ch yes m
        else run fuel ch no (m.withStatus 0)
      | .loop untilTrue test body => runLoop fuel ch untilTrue test body 0 m
      | .forEach name words body =>
        let (texts, m) := expandWords fuel ch words m
        runFor fuel ch name texts body (m.withStatus 0)
      | .redirected c redirects =>
        match redirectAll fuel ch redirects m with
        | (.error words, m) => (complainOfShell ch 2 words m).settled
        | (.ok ch, m) => run fuel ch c m

/-- Runs the first command with a pattern that a text matches. -/
def runChoice : Nat → Channels → Text → List (List Word × Command) → Machine → Machine
  | 0, _, _, _, m => exhausted m
  | _ + 1, _, _, [], m => m
  | fuel + 1, ch, s, (patterns, c) :: rest, m =>
    let (found, m) := matchesAny fuel ch s patterns m
    if found then run fuel ch c m else runChoice fuel ch s rest m

def matchesAny : Nat → Channels → Text → List Word → Machine → Bool × Machine
  | 0, _, _, _, m => (false, exhausted m)
  | _ + 1, _, _, [], m => (false, m)
  | fuel + 1, ch, s, w :: rest, m =>
    let (bits, m) := expandWord fuel ch w m
    let field : Field := bits.filterMap fun
      | .char c quoted _ => some (c, quoted)
      | .quotes => none
    if Wildcard.fits (patternOf (field.length + 1) field) s then (true, m)
    else matchesAny fuel ch s rest m

def runAll : Nat → Channels → List Command → Machine → Machine
  | 0, _, _, m => exhausted m
  | _ + 1, _, [], m => m
  | fuel + 1, ch, c :: rest, m => runAll fuel ch rest (run fuel ch c m)

/-- Runs the stages of a pipeline, each with the output of the one before it. -/
def runStages : Nat → Channels → List Command → Machine → Machine
  | 0, _, _, m => exhausted m
  | _ + 1, _, [], m => m
  | fuel + 1, ch, [c], m => m.afterSubshell (run fuel ch c m)
  | fuel + 1, ch, c :: rest, m =>
    let (n, inner) := m.newBuffer
    let inner := run fuel { ch with output := .buffer n } c inner
    let input := inner.buffer n
    runStages fuel { ch with input := input } rest (m.afterSubshell inner)

def runLoop : Nat → Channels → Bool → Command → Command → Nat → Machine → Machine
  | 0, _, _, _, _, _, m => exhausted m
  | fuel + 1, ch, untilTrue, test, body, status, m =>
    let m := guard (run fuel ch test) m
    if m.ended then m
    else if decide (m.status = 0) = untilTrue then m.withStatus status
    else
      let m := run fuel ch body m
      if m.ended then m else runLoop fuel ch untilTrue test body m.status m

def runFor : Nat → Channels → Text → List Text → Command → Machine → Machine
  | 0, _, _, _, _, m => exhausted m
  | _ + 1, _, _, [], _, m => m
  | fuel + 1, ch, name, s :: rest, body, m =>
    let m := run fuel ch body { m with values := Keyed.put name s m.values }
    if m.ended then m else runFor fuel ch name rest body m

def runScript : Nat → Channels → Text → Machine → Machine
  | 0, _, _, m => exhausted m
  | fuel + 1, ch, script, m =>
    match parse script with
    | .error e => { complainOfShell ch 2 e.message m with ended := true }
    | .ok c => run fuel ch c m

end

/-- How a script has ended: its status, which is negative where a signal has ended it, and what it has
written as errors. -/
structure Outcome where
  status : Int
  output : Bytes
  errors : Bytes
  disk : Disk

def stepLimit : Nat := 100000

def runIn (dir : Location) (values : Keyed Text) (script : Text) (disk : Disk) : Outcome :=
  let m := Machine.start { disk with here := dir } values
  let m := runScript stepLimit ⟨[], .buffer 0, .buffer 1⟩ script m
  let status : Int := match m.signal with
    | some n => -(n : Int)
    | none => m.status
  ⟨status, m.buffer 0, m.buffer 1, { m.disk with here := disk.here }⟩

end Sitewright.Shell
