import Sitewright.Text.Numeral
/-!
# Arguments of a command

An argument is the name of an option, the value of one, or an operand. Long names may be shortened as
long as only one option is meant, and take a value behind `=`; short names may be run together. Behind
two hyphens everything is an operand, and so is a negative number.

Main statement: a name in full means its own option, whatever others begin with it
(`classify_of_name`).
-/
set_option autoImplicit false

namespace Sitewright.Arguments

/-- Why arguments are not carried out. -/
inductive Refusal where
  /-- Help is asked for. -/
  | help
  /-- The arguments do not have the form of a command. -/
  | misuse
deriving DecidableEq, Repr

/-- An option: the name that it is known by, all its names, and whether it takes a value. -/
structure Opt where
  key : Text
  names : List Text
  takesValue : Bool
deriving DecidableEq, Repr

/-- What an argument is. -/
inductive Word where
  /-- Two hyphens, behind which there are operands only. -/
  | hyphens
  | operand (s : Text)
  /-- An option, none where it is unknown, with the name as it is given and the value that is given
  with it. -/
  | option (opt : Option Opt) (name : Text) (value : Option Text)
deriving DecidableEq, Repr

/-! ## Kinds of arguments -/

def named? (opts : List Opt) (name : Text) : Option Opt :=
  opts.find? fun o => decide (name ∈ o.names)

/-- A name and the value behind the first `=`. -/
def cutValue (s : Text) : Text × Option Text :=
  match Text.cutAt? ['='] s with
  | some (name, value) => (name, some value)
  | none => (s, none)

/-- The readings of an argument as a shortened name, or as a short name with something behind it. -/
def readings (opts : List Opt) (s : Text) : List Word :=
  let names := opts.flatMap fun o => o.names.map fun n => (o, n)
  match s with
  | '-' :: '-' :: _ =>
    let (start, value) := cutValue s
    (names.filter fun n => Text.startsWith start n.2).map fun n => .option (some n.1) n.2 value
  | _ =>
    names.filterMap fun n =>
      if n.2 = s.take 2 then some (.option (some n.1) n.2 (some (s.drop 2)))
      else if Text.startsWith s n.2 then some (.option (some n.1) n.2 none)
      else none

/-- Digits, or digits on both sides of a point, of which those in front may be missing. -/
def isPlainNumber (s : Text) : Bool :=
  let isRun := fun (t : Text) => !t.isEmpty && t.all fun c => (Text.digit? c).isSome
  isRun s ||
    match Text.cutAt? ['.'] s with
    | some (whole, decimals) => (whole.isEmpty || isRun whole) && isRun decimals
    | none => false

/-- What an argument is by itself. An unknown name that is a negative number or holds a space is an
operand. -/
def classify (opts : List Opt) (s : Text) : Except Refusal Word :=
  match s with
  | '-' :: c :: rest =>
    match named? opts s with
    | some o => .ok (.option (some o) s none)
    | none =>
      let (name, value) := cutValue s
      match value.isSome, named? opts name with
      | true, some o => .ok (.option (some o) name value)
      | _, _ =>
        match readings opts s with
        | [w] => .ok w
        | _ :: _ => .error .misuse
        | [] =>
          if isPlainNumber (c :: rest) || List.elem ' ' s then .ok (.operand s)
          else .ok (.option none s none)
  | _ => .ok (.operand s)

theorem classify_of_name {opts : List Opt} {o : Opt} {c : Char} {rest : Text}
    (h : named? opts ('-' :: c :: rest) = some o) :
    classify opts ('-' :: c :: rest) = .ok (.option (some o) ('-' :: c :: rest) none) := by
  simp [classify, h]

/-- What arguments are, one behind the other. -/
def words (opts : List Opt) : List Text → Except Refusal (List Word)
  | [] => .ok []
  | s :: rest =>
    if s = "--".toList then .ok (.hyphens :: rest.map .operand)
    else do return (← classify opts s) :: (← words opts rest)

/-! ## Options and operands -/

/-- The options that are given, by the names that they are known by, and the operands, of which there
may be some only. -/
structure Given where
  options : List (Text × Text)
  operands : List Text
deriving DecidableEq, Repr

namespace Given

def has (g : Given) (key : Text) : Bool := g.options.any fun o => decide (o.1 = key)

/-- The value of an option; the last one counts. -/
def value? (g : Given) (key : Text) : Option Text :=
  (g.options.reverse.find? fun o => decide (o.1 = key)).map Prod.snd

/-- An option more, in front. -/
def withOption (g : Given) (key value : Text) : Given :=
  { g with options := (key, value) :: g.options }

/-- An operand more, in front. -/
def withOperand (g : Given) (s : Text) : Given := { g with operands := s :: g.operands }

end Given

def helpKey : Text := "help".toList

def help : Opt := ⟨helpKey, ["-h".toList, "--help".toList], false⟩

/-- Short options that are run together behind the first one; the last one may take what is left as its
value. -/
def cluster (opts : List Opt) : Text → Except Refusal (List (Text × Text))
  | [] => .ok []
  | c :: rest =>
    match named? opts ['-', c] with
    | none => .error .misuse
    | some o =>
      if o.takesValue then
        if rest.isEmpty then .error .misuse else .ok [(o.key, rest)]
      else if o.key = helpKey then .error .help
      else (cluster opts rest).map fun more => (o.key, []) :: more

/-- The options that an argument without a further one stands for. -/
def optionsOf (opts : List Opt) (o : Opt) (name : Text) (value : Option Text) :
    Except Refusal (List (Text × Text)) :=
  if o.takesValue then
    match value with
    | some v => .ok [(o.key, v)]
    | none => .error .misuse
  else
    match value with
    | none => if o.key = helpKey then .error .help else .ok [(o.key, [])]
    | some v =>
      if v.isEmpty || Text.startsWith "--".toList name then .error .misuse
      else if o.key = helpKey then .error .help
      else (cluster opts v).map fun more => (o.key, []) :: more

/-- Sorts arguments into options and operands, of which there are some at most. -/
def sort (opts : List Opt) (operands : Nat) : List Word → Except Refusal Given
  | [] => .ok ⟨[], []⟩
  | .hyphens :: .operand s :: rest | .operand s :: .hyphens :: rest | .operand s :: rest =>
    match operands with
    | 0 => .error .misuse
    | n + 1 => (sort opts n rest).map fun g => g.withOperand s
  | .hyphens :: _ => .error .misuse
  | .option none _ _ :: _ => .error .misuse
  | .option (some o) _ none :: .operand v :: rest =>
    if o.takesValue then (sort opts operands rest).map fun g => g.withOption o.key v
    else if o.key = helpKey then .error .help
    else (sort opts operands (.operand v :: rest)).map fun g => g.withOption o.key []
  | .option (some o) name value :: rest =>
    match optionsOf opts o name value with
    | .error e => .error e
    | .ok more => (sort opts operands rest).map fun g => { g with options := more ++ g.options }

/-- Sorts arguments up to the first operand: the options in front of it, and the arguments from it on. -/
def sortLeading (opts : List Opt) : List (Word × Text) → Except Refusal (Given × List Text)
  | [] => .ok (⟨[], []⟩, [])
  | (.operand _, s) :: rest => .ok (⟨[], []⟩, s :: rest.map Prod.snd)
  | (.hyphens, _) :: _ => .error .misuse
  | (.option none _ _, _) :: _ => .error .misuse
  | (.option (some o) _ none, _) :: (.operand v, s) :: rest =>
    if o.takesValue then (sortLeading opts rest).map fun r => (r.1.withOption o.key v, r.2)
    else if o.key = helpKey then .error .help
    else .ok (⟨[(o.key, [])], []⟩, s :: rest.map Prod.snd)
  | (.option (some o) name value, _) :: rest =>
    match optionsOf opts o name value with
    | .error e => .error e
    | .ok more =>
      (sortLeading opts rest).map fun r => ({ r.1 with options := more ++ r.1.options }, r.2)

end Sitewright.Arguments
