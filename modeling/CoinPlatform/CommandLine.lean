/-
# The command line

`Config::load_from_command_line` reads the arguments of the node two at a time.  The value of
`--role` is taken as it is, and that of `--port` is what `std::stoi` makes of it, which may be any
`int`, and which the node stores in 16 bits.

* `loadArguments_eq_true`, `exists_loadArguments_eq_false`: which arguments are accepted, and which
  are refused; at all others an exception leaves the function;
* `parsesAsDocumented_iff`: the arguments at which it does what the README says.
-/
import CoinPlatform.DecimalNumbers
import CoinPlatform.Roles

open StdString

namespace CoinPlatform

namespace CommandLine

/-! ## The program -/

/-- `Config`. -/
structure Config where
  nodeRole : List Char
  port : ℤ
  deriving DecidableEq

/-- The default values. -/
def Config.default : Config := ⟨['d', 'u', 'a', 'l'], 8001⟩

def portOption : List Char := ['-', '-', 'p', 'o', 'r', 't']

def roleOption : List Char := ['-', '-', 'r', 'o', 'l', 'e']

/-- The loop of `load_from_command_line` over the arguments that are left.  An option without a
value behind it is an unknown argument. -/
def loadArguments (config : Config) : List (List Char) → Except NumberError (Bool × Config)
  | [] => return (true, config)
  | [_] => return (false, config)
  | arg :: value :: args =>
    if arg = portOption then do
      let port ← stoi value 10
      loadArguments { config with port := port } args
    else if arg = roleOption then loadArguments { config with nodeRole := value } args
    else return (false, config)

/-- `load_from_command_line`, with what is left in the object; `argv[0]` is the program. -/
def loadFromCommandLine (argv : List (List Char)) : Except NumberError (Bool × Config) :=
  loadArguments Config.default argv.tail

/-- `port_` of the node, which `start` gives to `network_manager_->start`: an `int` is stored in
a `uint16_t`. -/
def Config.listeningPort (config : Config) : UInt16 := UInt16.ofInt config.port

/-- `node_role_ == "time" || node_role_ == "dual"`. -/
def Config.hasTimeChain (config : Config) : Bool :=
  config.nodeRole = ['t', 'i', 'm', 'e'] || config.nodeRole = ['d', 'u', 'a', 'l']

/-- `node_role_ == "value" || node_role_ == "dual"`. -/
def Config.hasValueChain (config : Config) : Bool :=
  config.nodeRole = ['v', 'a', 'l', 'u', 'e'] || config.nodeRole = ['d', 'u', 'a', 'l']

/-- The storages that the constructor of the node makes, over what is on the disk. -/
def Config.storages (config : Config) (timeFiles : FileStorage TimeBlock)
    (valueFiles : FileStorage ValueBlock) :
    Option (FileStorage TimeBlock) × Option (FileStorage ValueBlock) :=
  (if config.hasTimeChain then some timeFiles else none,
    if config.hasValueChain then some valueFiles else none)

/-! ## The documentation -/

/-- A decimal number in 0..65535. -/
structure PortNumber where
  text : List Char
  text_ne_nil : text ≠ []
  isDigit_of_mem : ∀ c ∈ text, c.isDigit = true
  le : Nat.ofDigitChars 10 text 0 ≤ 65535

def PortNumber.value (n : PortNumber) : ℕ := Nat.ofDigitChars 10 n.text 0

/-- The names of the roles. -/
def roleText : Roles.Role → List Char
  | .time => ['t', 'i', 'm', 'e']
  | .value => ['v', 'a', 'l', 'u', 'e']
  | .dual => ['d', 'u', 'a', 'l']

/-- `--port <port_number>` and `--role <time|value|dual>`. -/
inductive DocumentedOption where
  | port (n : PortNumber)
  | role (r : Roles.Role)

namespace DocumentedOption

/-- The two arguments of an option. -/
def arguments : DocumentedOption → List (List Char)
  | .port n => [portOption, n.text]
  | .role r => [roleOption, roleText r]

def portNumber : DocumentedOption → Option ℕ
  | .port n => some n.value
  | .role _ => none

def roleName : DocumentedOption → Option Roles.Role
  | .port _ => none
  | .role r => some r

end DocumentedOption

/-- The last port of the options, and the default one when there is none. -/
def lastPort (options : List DocumentedOption) : ℕ :=
  (options.filterMap DocumentedOption.portNumber).getLastD 8001

/-- The last role of the options, and the default one when there is none. -/
def lastRole (options : List DocumentedOption) : Roles.Role :=
  (options.filterMap DocumentedOption.roleName).getLastD .dual

/-- The arguments are those of documented options. -/
def Documented (args : List (List Char)) : Prop :=
  ∃ options : List DocumentedOption, args = options.flatMap DocumentedOption.arguments

/-- Documented options are accepted, and the node listens on the last port, has the last role and
is built with the storages of that role; all other arguments are refused, and no exception leaves
the function. -/
structure ParsesAsDocumented (argv : List (List Char)) : Prop where
  accepted : ∀ options : List DocumentedOption,
    argv.tail = options.flatMap DocumentedOption.arguments →
    ∃ config, loadFromCommandLine argv = .ok (true, config) ∧
      config.listeningPort.toNat = lastPort options ∧
      config.nodeRole = roleText (lastRole options) ∧
      ∀ timeFiles valueFiles, config.storages timeFiles valueFiles =
        ((Roles.construct (lastRole options) timeFiles valueFiles).timeChainStorage,
          (Roles.construct (lastRole options) timeFiles valueFiles).valueChainStorage)
  refused : ¬ Documented argv.tail → ∃ config, loadFromCommandLine argv = .ok (false, config)

/-! ## What is read -/

/-- What the loop reads as an option: any text for a role, and for a port any text that starts
with an `int`. -/
inductive ReadOption where
  | port (value : List Char) (n : ℤ) (h : StartsWithInt value n)
  | role (value : List Char)

namespace ReadOption

/-- The two arguments of an option. -/
def arguments : ReadOption → List (List Char)
  | .port value _ _ => [portOption, value]
  | .role value => [roleOption, value]

/-- What an option changes. -/
def apply (config : Config) : ReadOption → Config
  | .port _ n _ => { config with port := n }
  | .role value => { config with nodeRole := value }

end ReadOption

/-- From the left, an argument that is no option with a value comes before any `--port` whose value
does not start with an `int`. -/
inductive StopsAtUnknown : List (List Char) → Prop
  | single (arg : List Char) : StopsAtUnknown [arg]
  | unknown {arg : List Char} (value : List Char) (args : List (List Char))
      (hport : arg ≠ portOption) (hrole : arg ≠ roleOption) : StopsAtUnknown (arg :: value :: args)
  | behind (option : ReadOption) {args : List (List Char)} (h : StopsAtUnknown args) :
      StopsAtUnknown (option.arguments ++ args)

variable {config config' : Config} {args argv : List (List Char)}
  {options : List DocumentedOption}

/-! ## The node -/

/-- The port is stored modulo 65536. -/
theorem toNat_listeningPort (config : Config) :
    (config.listeningPort.toNat : ℤ) = config.port % 2 ^ 16 := by
  have hnonneg : 0 ≤ config.port % 2 ^ 16 := Int.emod_nonneg _ (by decide)
  have hlt : config.port % 2 ^ 16 < 2 ^ 16 := Int.emod_lt_of_pos _ (by decide)
  rw [Config.listeningPort, UInt16.ofInt, UInt16.toNat_ofNat_of_lt' (by
    change _ < 65536
    omega)]
  exact Int.toNat_of_nonneg hnonneg

/-- The strings of the documented roles select the chains of these roles. -/
theorem hasTimeChain_of_roleText {r : Roles.Role} (h : config.nodeRole = roleText r) :
    config.hasTimeChain = r.hasTimeChain := by
  rw [Config.hasTimeChain, h]
  cases r <;> rfl

theorem hasValueChain_of_roleText {r : Roles.Role} (h : config.nodeRole = roleText r) :
    config.hasValueChain = r.hasValueChain := by
  rw [Config.hasValueChain, h]
  cases r <;> rfl

/-- A node with the string of a role is built as `Roles` builds a node of that role. -/
theorem storages_of_roleText {r : Roles.Role} (h : config.nodeRole = roleText r)
    (timeFiles : FileStorage TimeBlock) (valueFiles : FileStorage ValueBlock) :
    config.storages timeFiles valueFiles =
      ((Roles.construct r timeFiles valueFiles).timeChainStorage,
        (Roles.construct r timeFiles valueFiles).valueChainStorage) := by
  rw [Config.storages, hasTimeChain_of_roleText h, hasValueChain_of_roleText h]
  rfl

/-! ## One option -/

/-- An option that is read changes the configuration, and the loop goes on behind it. -/
theorem loadArguments_append (config : Config) (option : ReadOption) (args : List (List Char)) :
    loadArguments config (option.arguments ++ args) = loadArguments (option.apply config) args := by
  cases option with
  | port value n h =>
      show loadArguments config (portOption :: value :: args) = _
      rw [loadArguments, if_pos rfl, stoi_eq_ok.mpr h]
      rfl
  | role value =>
      show loadArguments config (roleOption :: value :: args) = _
      rw [loadArguments, if_neg (by decide), if_pos rfl]
      rfl

theorem loadArguments_unknown (config : Config) {arg : List Char} (hport : arg ≠ portOption)
    (hrole : arg ≠ roleOption) (value : List Char) (args : List (List Char)) :
    loadArguments config (arg :: value :: args) = .ok (false, config) := by
  rw [loadArguments, if_neg hport, if_neg hrole]
  rfl

/-! ## All arguments -/

/-- Options that are read are accepted. -/
theorem loadArguments_flatMap (config : Config) (options : List ReadOption) :
    loadArguments config (options.flatMap ReadOption.arguments)
      = .ok (true, options.foldl ReadOption.apply config) := by
  induction options generalizing config with
  | nil => rfl
  | cons option options ih =>
      rw [List.flatMap_cons, loadArguments_append, ih, List.foldl_cons]

/-- An unknown argument is refused, whatever was read before it. -/
theorem StopsAtUnknown.exists_loadArguments (h : StopsAtUnknown args) (config : Config) :
    ∃ config', loadArguments config args = .ok (false, config') := by
  induction h generalizing config with
  | single arg => exact ⟨config, rfl⟩
  | unknown value args hport hrole =>
      exact ⟨config, loadArguments_unknown config hport hrole value args⟩
  | behind option _ ih =>
      rw [loadArguments_append]
      exact ih (option.apply config)

/-- The loop reads to the end, or stops at an unknown argument, or ends with an exception. -/
def Ends (config : Config) (args : List (List Char)) : Prop :=
  (∃ options : List ReadOption, args = options.flatMap ReadOption.arguments) ∨
    StopsAtUnknown args ∨ ∃ error, loadArguments config args = .error error

theorem Ends.behind (option : ReadOption) (h : Ends (option.apply config) args) :
    Ends config (option.arguments ++ args) := by
  rcases h with ⟨options, rfl⟩ | hstops | ⟨error, herror⟩
  · exact .inl ⟨option :: options, rfl⟩
  · exact .inr (.inl (.behind option hstops))
  · refine .inr (.inr ⟨error, ?_⟩)
    rw [loadArguments_append, herror]

/-- There is no other way for it to end. -/
theorem ends_loadArguments (config : Config) (args : List (List Char)) : Ends config args := by
  induction config, args using loadArguments.induct with
  | case1 config => exact .inl ⟨[], rfl⟩
  | case2 config arg => exact .inr (.inl (.single arg))
  | case3 config value args ih =>
      cases hread : stoi value 10 with
      | error error =>
          refine .inr (.inr ⟨error, ?_⟩)
          rw [loadArguments, if_pos rfl, hread]
          rfl
      | ok n => exact Ends.behind (.port value n (stoi_eq_ok.mp hread)) (ih n)
  | case4 config value args _ ih => exact Ends.behind (.role value) ih
  | case5 config arg value args hport hrole =>
      exact .inr (.inl (.unknown value args hport hrole))

/-- **What is accepted**: options with their values, up to the end. -/
theorem loadArguments_eq_true : loadArguments config args = .ok (true, config') ↔
    ∃ options : List ReadOption, args = options.flatMap ReadOption.arguments ∧
      config' = options.foldl ReadOption.apply config := by
  constructor
  · intro h
    rcases ends_loadArguments config args with ⟨options, rfl⟩ | hstops | ⟨error, herror⟩
    · rw [loadArguments_flatMap] at h
      exact ⟨options, rfl, (Prod.mk.inj (Except.ok.inj h)).2.symm⟩
    · obtain ⟨config'', hfalse⟩ := hstops.exists_loadArguments config
      rw [hfalse] at h
      cases h
    · rw [herror] at h
      cases h
  · rintro ⟨options, rfl, rfl⟩
    exact loadArguments_flatMap config options

/-- **What is refused**: an unknown argument is met. -/
theorem exists_loadArguments_eq_false :
    (∃ config', loadArguments config args = .ok (false, config')) ↔ StopsAtUnknown args := by
  constructor
  · rintro ⟨config', h⟩
    rcases ends_loadArguments config args with ⟨options, rfl⟩ | hstops | ⟨error, herror⟩
    · rw [loadArguments_flatMap] at h
      cases h
    · exact hstops
    · rw [herror] at h
      cases h
  · intro hstops
    exact hstops.exists_loadArguments config

/-! ## Documented options -/

theorem PortNumber.startsWithInt (n : PortNumber) : StartsWithInt n.text n.value := by
  have hle : n.value ≤ 65535 := n.le
  refine ⟨⟨⟨[], .none, n.text, [], ?_, n.text_ne_nil, n.isDigit_of_mem, ?_⟩,
    List.append_nil n.text, rfl⟩, by omega, by omega⟩
  · intro c hc
    cases hc
  · intro c hc
    cases hc

/-- What the loop makes of a documented option. -/
def DocumentedOption.read : DocumentedOption → ReadOption
  | .port n => .port n.text n.value n.startsWithInt
  | .role r => .role (roleText r)

theorem flatMap_arguments_read (options : List DocumentedOption) :
    (options.map DocumentedOption.read).flatMap ReadOption.arguments
      = options.flatMap DocumentedOption.arguments := by
  rw [List.flatMap_map]
  congr 1
  funext option
  cases option <;> rfl

/-- The last values are those that are left. -/
theorem foldl_apply_read (options : List DocumentedOption) (r : Roles.Role) (n : ℕ) :
    (options.map DocumentedOption.read).foldl ReadOption.apply ⟨roleText r, n⟩
      = ⟨roleText ((options.filterMap DocumentedOption.roleName).getLastD r),
        ((options.filterMap DocumentedOption.portNumber).getLastD n : ℕ)⟩ := by
  induction options generalizing r n with
  | nil => rfl
  | cons option options ih =>
      cases option with
      | port m =>
          rw [List.filterMap_cons_some (f := DocumentedOption.portNumber) rfl, List.getLastD_cons]
          exact ih r m.value
      | role q =>
          rw [List.filterMap_cons_some (f := DocumentedOption.roleName) rfl, List.getLastD_cons]
          exact ih q n

theorem lastPort_le (options : List DocumentedOption) : lastPort options ≤ 65535 := by
  have hmem : lastPort options ∈ 8001 :: options.filterMap DocumentedOption.portNumber :=
    List.getLastD_mem_cons
  rcases List.mem_cons.mp hmem with hdefault | hmem
  · rw [hdefault]
    decide
  · obtain ⟨option, -, hoption⟩ := List.mem_filterMap.mp hmem
    cases option with
    | port n =>
        rw [← Option.some.inj hoption]
        exact n.le
    | role r => cases hoption

/-- Documented options are accepted, and the last ones count. -/
theorem loadFromCommandLine_documented
    (h : argv.tail = options.flatMap DocumentedOption.arguments) :
    loadFromCommandLine argv = .ok (true, ⟨roleText (lastRole options), lastPort options⟩) := by
  rw [loadFromCommandLine, h, ← flatMap_arguments_read, loadArguments_flatMap]
  exact congrArg (fun config => Except.ok (true, config)) (foldl_apply_read options .dual 8001)

/-- No exception leaves the function. -/
theorem ParsesAsDocumented.exists_ok (h : ParsesAsDocumented argv) :
    ∃ returned config, loadFromCommandLine argv = .ok (returned, config) := by
  by_cases hdocumented : Documented argv.tail
  · obtain ⟨options, hoptions⟩ := hdocumented
    obtain ⟨config, hload, -⟩ := h.accepted options hoptions
    exact ⟨true, config, hload⟩
  · obtain ⟨config, hload⟩ := h.refused hdocumented
    exact ⟨false, config, hload⟩

/-- What is accepted has a documented role. -/
theorem ParsesAsDocumented.exists_role (h : ParsesAsDocumented argv)
    (hload : loadFromCommandLine argv = .ok (true, config)) :
    ∃ r, config.nodeRole = roleText r := by
  by_cases hdocumented : Documented argv.tail
  · obtain ⟨options, hoptions⟩ := hdocumented
    obtain ⟨config', hload', -, hrole, -⟩ := h.accepted options hoptions
    obtain rfl := (Prod.mk.inj (Except.ok.inj (hload.symm.trans hload'))).2
    exact ⟨lastRole options, hrole⟩
  · obtain ⟨config', hload'⟩ := h.refused hdocumented
    rw [hload] at hload'
    cases hload'

/-- **When the command line is parsed as documented**: it is a documented one, or an unknown
argument is met before any port that `std::stoi` cannot read. -/
theorem parsesAsDocumented_iff :
    ParsesAsDocumented argv ↔ Documented argv.tail ∨ StopsAtUnknown argv.tail := by
  constructor
  · intro hparses
    by_cases hdocumented : Documented argv.tail
    · exact .inl hdocumented
    · exact .inr (exists_loadArguments_eq_false.mp (hparses.refused hdocumented))
  · intro h
    refine ⟨fun options hoptions => ?_, fun hother => ?_⟩
    · refine ⟨_, loadFromCommandLine_documented hoptions, ?_, rfl, storages_of_roleText rfl⟩
      have hport := toNat_listeningPort ⟨roleText (lastRole options), lastPort options⟩
      have hle := lastPort_le options
      dsimp only at hport
      omega
    · exact exists_loadArguments_eq_false.mpr (h.resolve_left hother)

/-- A port that is too large is accepted, and so is a role that does not exist; a text without a
digit makes `std::stoi` throw. -/
theorem not_parsesAsDocumented :
    ¬ ParsesAsDocumented [['n', 'o', 'd', 'e'], portOption, ['6', '5', '5', '3', '7'],
        roleOption, ['m', 'i', 'n', 'e', 'r']] ∧
      ¬ ParsesAsDocumented [['n', 'o', 'd', 'e'], portOption, ['a', 'b', 'c']] := by
  constructor
  · intro h
    have hload : loadFromCommandLine [['n', 'o', 'd', 'e'], portOption,
        ['6', '5', '5', '3', '7'], roleOption, ['m', 'i', 'n', 'e', 'r']]
          = .ok (true, ⟨['m', 'i', 'n', 'e', 'r'], 65537⟩) := rfl
    obtain ⟨r, hr⟩ := h.exists_role hload
    cases r
    · exact absurd hr (by decide)
    · exact absurd hr (by decide)
    · exact absurd hr (by decide)
  · intro h
    obtain ⟨returned, config, hload⟩ := h.exists_ok
    cases hload

/-- The port that is too large becomes another one. -/
example : Config.listeningPort ⟨['m', 'i', 'n', 'e', 'r'], 65537⟩ = 1 := rfl

end CommandLine

end CoinPlatform
