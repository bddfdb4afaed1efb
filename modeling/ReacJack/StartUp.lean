import Mathlib.Data.List.TakeWhile
import ReacJack.OptionLine
import ReacJack.ToneStream
import ReacJack.PipeWireLedger
import ReacJack.DecodedRows

/-! From the command line to the ring. `main` of `reacjackd.c` and of `reacjack-pw.c` up to
the capture, with the interface that is captured from. Arguments are lists of characters. -/
namespace ReacJack.StartUp
open OptionLine ReacDecode DecodedRows TransitionRuns Daemon Tone

inductive Refusal where
  | usage
  | unsupportedChannelCount (channels : Int)
  | noInterface
  deriving DecidableEq, Repr

def isSpace (c : Char) : Bool := c ∈ [' ', '\t', '\n', '\x0b', '\x0c', '\r']

/-- `strtol(text, NULL, 10)`, where `long` is 64 bits wide. -/
def strtol (text : Argument) : Int :=
  let value (digits : Argument) : Nat := Nat.ofDigitChars 10 (digits.takeWhile Char.isDigit) 0
  match text.dropWhile isSpace with
  | '-' :: digits => max (-2 ^ 63) (-(value digits : Int))
  | '+' :: digits => min (2 ^ 63 - 1) (value digits : Int)
  | digits => min (2 ^ 63 - 1) (value digits : Int)

def interfaceOption : Argument := ['-', 'i']
def ringNameOption : Argument := ['-', 'n']
def channelsOption : Argument := ['-', 'c']
def toneOption : Argument := ['-', 't', 'o', 'n', 'e']

def takeChannels {σ : Type} (give : σ → UInt16 → σ) (s : σ) (text : Argument) : Except Refusal σ :=
  let channels := strtol text
  if channels ≤ 0 ∨ 40 < channels ∨ channels % 2 ≠ 0 then .error (.unsupportedChannelCount channels)
  else .ok (give s (UInt16.ofNat channels.toNat))

structure DaemonOptions where
  interface : Option Argument
  ringName : Argument
  toneMode : Bool
  channels : UInt16

def defaultRing : Argument :=
  ['/', 'r', 'e', 'a', 'c', 'j', 'a', 'c', 'k', '-', 'a', 'u', 'd', 'i', 'o']

def daemonOption (name : Argument) : Option (Takes DaemonOptions Refusal) :=
  if name = interfaceOption then some (.argument (fun daemon value => .ok {daemon with interface := some value}))
  else if name = ringNameOption then some (.argument (fun daemon value => .ok {daemon with ringName := value}))
  else if name = toneOption then some (.alone (fun daemon => {daemon with toneMode := true}))
  else if name = channelsOption then
    some (.argument (takeChannels (fun daemon channels => {daemon with channels})))
  else none

def reacjackd (argv : List Argument) : Except Refusal DaemonOptions :=
  match read daemonOption .usage ⟨none,defaultRing,false,0⟩ argv with
  | .error refusal => .error refusal
  | .ok daemon =>
    if !daemon.toneMode && daemon.interface.isNone then .error .usage
    else if daemon.toneMode && daemon.channels = 0 then .ok {daemon with channels := 2}
    else .ok daemon

/-- `getifaddrs` lists an interface with its address's family, or without an address. -/
structure Interface where
  name : Argument
  family : Option Int

def listed (linkLayer : Int → Bool) (ifa : Interface) : Bool := ifa.family.any linkLayer

def pick (linkLayer : Int → Bool) (selected : Int) : Int → List Interface → Option Argument
  | _, [] => none
  | current, ifa :: rest =>
    if listed linkLayer ifa then
      if current + 1 = selected then some ifa.name else pick linkLayer selected (current + 1) rest
    else pick linkLayer selected current rest

def chooseInterface (linkLayer : Int → Bool) (interfaces : List Interface) (answer : Option Int) (nameSize : Nat) :
    Option Argument :=
  let shown := interfaces.countP (listed linkLayer)
  if shown = 0 then none
  else answer.bind (fun selected =>
    if selected < 1 ∨ (shown : Int) < selected then none
    else (pick linkLayer selected 0 interfaces).map (fun name => name.take (nameSize - 1)))

def ifNamesize : Nat := 16

structure PwOptions where
  interface : Argument
  channels : UInt16

def pwOption (name : Argument) : Option (Takes PwOptions Refusal) :=
  if name = interfaceOption then
    some (.argument (fun app value => .ok {app with interface := value.take (ifNamesize - 1)}))
  else if name = channelsOption then some (.argument (takeChannels (fun app channels => {app with channels})))
  else none

def reacjackPw (linkLayer : Int → Bool) (interfaces : List Interface) (answer : Option Int) (argv : List Argument) :
    Except Refusal PwOptions :=
  match read pwOption .usage ⟨[],40⟩ argv with
  | .error refusal => .error refusal
  | .ok app =>
    if app.interface = [] then
      match chooseInterface linkLayer interfaces answer ifNamesize with
      | some interface => .ok {app with interface}
      | none => .error .noInterface
    else .ok app

def ChannelSetting (setting : Setting) : Prop :=
  ∃ (text : Argument) (n : Nat), setting = (channelsOption,some text) ∧ strtol text = n ∧ Supported n

def DaemonSetting (setting : Setting) : Prop :=
  setting = (toneOption,none) ∨
  (∃ text, setting = (interfaceOption,some text) ∨ setting = (ringNameOption,some text)) ∨
  ChannelSetting setting

def PwSetting (setting : Setting) : Prop :=
  (∃ text, setting = (interfaceOption,some text)) ∨ ChannelSetting setting

def channelsOf (text : Argument) : UInt16 := UInt16.ofNat (strtol text).toNat

theorem takenSupported {σ : Type} {give : σ → UInt16 → σ} {s t : σ} {text : Argument}
    (taken : takeChannels give s text = .ok t) :
    t = give s (channelsOf text) ∧ ∃ n : Nat, strtol text = n ∧ Supported n := by
  simp only [takeChannels] at taken
  split at taken
  · contradiction
  · rename_i fits
    simp only [not_or, not_le, not_lt, ne_eq, not_not] at fits
    obtain ⟨positive,most,even⟩ := fits
    cases taken
    exact ⟨rfl,(strtol text).toNat,by omega,⟨by omega,by omega,by omega⟩⟩

theorem channelsSupported {setting : Setting} {text : Argument} (given : ChannelSetting setting)
    (same : setting.2 = some text) : Supported (channelsOf text).toNat := by
  obtain ⟨_,n,rfl,number,supported⟩ := given
  cases same
  have most := supported.most
  have toNat : (channelsOf text).toNat = n := by
    rw [channelsOf, number, UInt16.toNat_ofNat']
    omega
  rw [toNat]
  exact supported

theorem daemonApplied {s t : DaemonOptions} {setting : Setting}
    (applied : apply daemonOption .usage s setting = .ok t) :
    (∃ text, setting = (interfaceOption,some text) ∧ t = {s with interface := some text}) ∨
    (∃ text, setting = (ringNameOption,some text) ∧ t = {s with ringName := text}) ∨
    (setting = (toneOption,none) ∧ t = {s with toneMode := true}) ∨
    ∃ text, setting = (channelsOption,some text) ∧ ChannelSetting setting ∧
      t = {s with channels := channelsOf text} := by
  obtain ⟨name,value⟩ := setting
  simp only [apply, daemonOption] at applied
  by_cases interface : name = interfaceOption
  · subst interface
    cases value <;> cases applied
    exact .inl ⟨_,rfl,rfl⟩
  by_cases ringName : name = ringNameOption
  · subst ringName
    cases value <;> cases applied
    exact .inr (.inl ⟨_,rfl,rfl⟩)
  by_cases tone : name = toneOption
  · subst tone
    cases value <;> cases applied
    exact .inr (.inr (.inl ⟨rfl,rfl⟩))
  by_cases channels : name = channelsOption
  · subst channels
    cases value with
    | none => cases applied
    | some text =>
      have taken : takeChannels (fun daemon channels => {daemon with channels}) s text = .ok t := applied
      obtain ⟨rfl,n,number,supported⟩ := takenSupported taken
      exact .inr (.inr (.inr ⟨text,rfl,⟨text,n,rfl,number,supported⟩,rfl⟩))
  · simp only [interface, ringName, tone, channels, if_false] at applied
    cases applied

theorem pwApplied {s t : PwOptions} {setting : Setting} (applied : apply pwOption .usage s setting = .ok t) :
    (∃ text, setting = (interfaceOption,some text) ∧ t = {s with interface := text.take 15}) ∨
    ∃ text, setting = (channelsOption,some text) ∧ ChannelSetting setting ∧
      t = {s with channels := channelsOf text} := by
  obtain ⟨name,value⟩ := setting
  simp only [apply, pwOption] at applied
  by_cases interface : name = interfaceOption
  · subst interface
    cases value <;> cases applied
    exact .inl ⟨_,rfl,rfl⟩
  by_cases channels : name = channelsOption
  · subst channels
    cases value with
    | none => cases applied
    | some text =>
      have taken : takeChannels (fun app channels => {app with channels}) s text = .ok t := applied
      obtain ⟨rfl,n,number,supported⟩ := takenSupported taken
      exact .inr ⟨text,rfl,⟨text,n,rfl,number,supported⟩,rfl⟩
  · simp only [interface, channels, if_false] at applied
    cases applied

structure DaemonLine (settings : List Setting) (daemon : DaemonOptions) : Prop where
  each : ∀ setting ∈ settings, DaemonSetting setting
  interface : daemon.interface = lastArgument interfaceOption settings
  ringName : daemon.ringName = (lastArgument ringNameOption settings).getD defaultRing
  toneMode : daemon.toneMode = settings.any (fun setting => setting.1 = toneOption)
  channels : daemon.channels = (lastArgument channelsOption settings).elim 0 channelsOf

theorem optionsApart : interfaceOption ≠ ringNameOption ∧ interfaceOption ≠ toneOption ∧
    interfaceOption ≠ channelsOption ∧ ringNameOption ≠ toneOption ∧ ringNameOption ≠ channelsOption ∧
    toneOption ≠ channelsOption := by
  decide

theorem daemonLine {settings : List Setting} {daemon : DaemonOptions}
    (applied : settings.foldlM (apply daemonOption .usage) ⟨none,defaultRing,false,0⟩ = .ok daemon) :
    DaemonLine settings daemon := by
  obtain ⟨iName,iTone,iChannels,nTone,nChannels,tChannels⟩ := optionsApart
  refine ⟨?_,?_,?_,?_,?_⟩
  · refine settingsAll (fun s setting t one => ?_) applied
    rcases daemonApplied one with ⟨text,rfl,_⟩ | ⟨text,rfl,_⟩ | ⟨rfl,_⟩ | ⟨_,_,given,_⟩
    · exact .inr (.inl ⟨text,.inl rfl⟩)
    · exact .inr (.inl ⟨text,.inr rfl⟩)
    · exact .inl rfl
    · exact .inr (.inr given)
  · refine (settingsLast DaemonOptions.interface interfaceOption some (fun s setting t one => ?_) applied).trans ?_
    · rcases daemonApplied one with ⟨text,rfl,rfl⟩ | ⟨text,rfl,rfl⟩ | ⟨rfl,rfl⟩ | ⟨_,rfl,_,rfl⟩
      · exact .inl ⟨text,rfl,rfl⟩
      · exact .inr ⟨iName.symm,rfl⟩
      · exact .inr ⟨iTone.symm,rfl⟩
      · exact .inr ⟨iChannels.symm,rfl⟩
    · cases lastArgument interfaceOption settings <;> rfl
  · refine (settingsLast DaemonOptions.ringName ringNameOption id (fun s setting t one => ?_) applied).trans ?_
    · rcases daemonApplied one with ⟨text,rfl,rfl⟩ | ⟨text,rfl,rfl⟩ | ⟨rfl,rfl⟩ | ⟨_,rfl,_,rfl⟩
      · exact .inr ⟨iName,rfl⟩
      · exact .inl ⟨text,rfl,rfl⟩
      · exact .inr ⟨nTone.symm,rfl⟩
      · exact .inr ⟨nChannels.symm,rfl⟩
    · cases lastArgument ringNameOption settings <;> rfl
  · refine (settingsAny DaemonOptions.toneMode toneOption (fun s setting t one => ?_) applied).trans (Bool.false_or _)
    rcases daemonApplied one with ⟨text,rfl,rfl⟩ | ⟨text,rfl,rfl⟩ | ⟨rfl,rfl⟩ | ⟨_,rfl,_,rfl⟩
    · exact .inr ⟨iTone,rfl⟩
    · exact .inr ⟨nTone,rfl⟩
    · exact .inl ⟨rfl,rfl⟩
    · exact .inr ⟨tChannels.symm,rfl⟩
  · refine settingsLast DaemonOptions.channels channelsOption channelsOf (fun s setting t one => ?_) applied
    rcases daemonApplied one with ⟨text,rfl,rfl⟩ | ⟨text,rfl,rfl⟩ | ⟨rfl,rfl⟩ | ⟨text,rfl,_,rfl⟩
    · exact .inr ⟨iChannels,rfl⟩
    · exact .inr ⟨nChannels,rfl⟩
    · exact .inr ⟨tChannels,rfl⟩
    · exact .inl ⟨text,rfl,rfl⟩

theorem daemonCount {settings : List Setting} {daemon : DaemonOptions} (line : DaemonLine settings daemon) :
    lastArgument channelsOption settings = none ∧ daemon.channels = 0 ∨ Supported daemon.channels.toNat := by
  have channels := line.channels
  cases last : lastArgument channelsOption settings with
  | none =>
    rw [last] at channels
    exact .inl ⟨rfl,channels⟩
  | some text =>
    rw [last, Option.elim_some] at channels
    rw [channels]
    obtain ⟨_,_,iChannels,_,nChannels,tChannels⟩ := optionsApart
    rcases line.each _ (lastMember last) with tone | ⟨_,interface | ringName⟩ | given
    · exact absurd (congrArg Prod.fst tone).symm tChannels
    · exact absurd (congrArg Prod.fst interface).symm iChannels
    · exact absurd (congrArg Prod.fst ringName).symm nChannels
    · exact .inr (channelsSupported given rfl)

structure PwLine (settings : List Setting) (app : PwOptions) : Prop where
  each : ∀ setting ∈ settings, PwSetting setting
  interface : app.interface = (lastArgument interfaceOption settings).elim [] (List.take 15)
  channels : app.channels = (lastArgument channelsOption settings).elim 40 channelsOf

theorem pwLine {settings : List Setting} {app : PwOptions}
    (applied : settings.foldlM (apply pwOption .usage) ⟨[],40⟩ = .ok app) : PwLine settings app := by
  obtain ⟨_,_,apart,_⟩ := optionsApart
  refine ⟨?_,?_,?_⟩
  · refine settingsAll (fun s setting t one => ?_) applied
    rcases pwApplied one with ⟨text,rfl,_⟩ | ⟨_,_,given,_⟩
    · exact .inl ⟨text,rfl⟩
    · exact .inr given
  · refine settingsLast PwOptions.interface interfaceOption (List.take 15) (fun s setting t one => ?_) applied
    rcases pwApplied one with ⟨text,rfl,rfl⟩ | ⟨_,rfl,_,rfl⟩
    · exact .inl ⟨text,rfl,rfl⟩
    · exact .inr ⟨apart.symm,rfl⟩
  · refine settingsLast PwOptions.channels channelsOption channelsOf (fun s setting t one => ?_) applied
    rcases pwApplied one with ⟨text,rfl,rfl⟩ | ⟨text,rfl,_,rfl⟩
    · exact .inr ⟨apart,rfl⟩
    · exact .inl ⟨text,rfl,rfl⟩

theorem pwCount {settings : List Setting} {app : PwOptions} (line : PwLine settings app) :
    Supported app.channels.toNat := by
  rw [line.channels]
  cases last : lastArgument channelsOption settings with
  | none => exact ⟨by decide,by decide,by decide⟩
  | some text =>
    rcases line.each _ (lastMember last) with ⟨_,interface⟩ | given
    · exact absurd (congrArg Prod.fst interface).symm optionsApart.2.2.1
    · exact channelsSupported given rfl

theorem strtolDecimal {n : Nat} (small : n < 2 ^ 63) : strtol (Nat.toDigits 10 n) = n := by
  have digits : ∀ c ∈ Nat.toDigits 10 n, c.isDigit = true :=
    fun c member => Nat.isDigit_of_mem_toDigits (by decide) (by decide) member
  have all : (Nat.toDigits 10 n).takeWhile Char.isDigit = Nat.toDigits 10 n :=
    List.takeWhile_eq_self_iff.mpr digits
  obtain ⟨first,rest,shape⟩ := List.exists_cons_of_ne_nil (Nat.toDigits_ne_nil (n := n) (b := 10))
  have digit : first.isDigit = true := digits first (by rw [shape]; exact List.mem_cons_self)
  have plain : ∀ c, c.isDigit = false → first ≠ c := by
    rintro c other rfl
    rw [digit] at other
    contradiction
  have kept : (Nat.toDigits 10 n).dropWhile isSpace = Nat.toDigits 10 n := by
    have here : isSpace first = false := by
      simp only [isSpace, List.mem_cons, List.not_mem_nil, or_false, decide_eq_false_iff_not, not_or]
      exact ⟨plain _ (by decide),plain _ (by decide),plain _ (by decide),plain _ (by decide),plain _ (by decide),
        plain _ (by decide)⟩
    rw [shape, List.dropWhile_cons_of_neg (by rw [here]; decide)]
  simp only [strtol, kept]
  split
  · rename_i signed
    exact absurd (List.cons.inj (shape.symm.trans signed)).1 (plain _ (by decide))
  · rename_i signed
    exact absurd (List.cons.inj (shape.symm.trans signed)).1 (plain _ (by decide))
  · rw [all, Nat.ofDigitChars_ten_toDigits]
    omega

theorem stereo : Supported (2 : UInt16).toNat := ⟨by decide,by decide,by decide⟩

structure DaemonGoesOn (settings : List Setting) (o : DaemonOptions) : Prop where
  each : ∀ setting ∈ settings, DaemonSetting setting
  interface : o.interface = lastArgument interfaceOption settings
  ringName : o.ringName = (lastArgument ringNameOption settings).getD defaultRing
  toneMode : o.toneMode = settings.any (fun setting => setting.1 = toneOption)
  source : o.toneMode = true ∨ o.interface.isSome = true
  channels : o.channels = (lastArgument channelsOption settings).elim (if o.toneMode then 2 else 0) channelsOf

theorem reacjackdGoesOn {argv : List Argument} {o : DaemonOptions} (begun : reacjackd argv = .ok o) :
    (∃ settings : List Setting, argv = settings.flatMap words ∧ DaemonGoesOn settings o) ∧
      (o.channels = 0 ∧ o.toneMode = false ∨ Supported o.channels.toNat) := by
  simp only [reacjackd] at begun
  cases line : read daemonOption .usage ⟨none,defaultRing,false,0⟩ argv with
  | error refusal =>
    rw [line] at begun
    contradiction
  | ok daemon =>
    obtain ⟨settings,spelled,applied⟩ := readIff.mp line
    have told := daemonLine applied
    have count := daemonCount told
    have channels := told.channels
    simp only [line] at begun
    split at begun
    · contradiction
    rename_i source
    have source_ : daemon.toneMode = true ∨ daemon.interface.isSome = true := by
      cases toned : daemon.toneMode with
      | true => exact .inl rfl
      | false =>
        rw [toned, Bool.not_false, Bool.true_and, Bool.not_eq_true, Option.isNone_eq_false_iff] at source
        exact .inr source
    split at begun
    · rename_i silent
      simp only [Bool.and_eq_true, decide_eq_true_eq] at silent
      obtain ⟨toned,zero⟩ := silent
      cases begun
      refine ⟨⟨settings,spelled,told.each,told.interface,told.ringName,told.toneMode,source_,?_⟩,.inr stereo⟩
      rcases count with ⟨last,_⟩ | supported
      · rw [last, Option.elim_none, if_pos toned]
      · rw [zero] at supported
        exact absurd rfl supported.positive
    · rename_i given
      cases begun
      refine ⟨⟨settings,spelled,told.each,told.interface,told.ringName,told.toneMode,source_,?_⟩,?_⟩
      · cases last : lastArgument channelsOption settings with
        | none =>
          rw [last, Option.elim_none] at channels
          simp only [channels, decide_true, Bool.and_true] at given
          rw [Option.elim_none, if_neg given, channels]
        | some text => rw [channels, last, Option.elim_some, Option.elim_some]
      · rcases count with ⟨_,zero⟩ | supported
        · simp only [zero, decide_true, Bool.and_true] at given
          exact .inl ⟨zero,Bool.not_eq_true _ ▸ given⟩
        · exact .inr supported

theorem pickIs (linkLayer : Int → Bool) {current selected : Int} (interfaces : List Interface)
    (later : current < selected) : pick linkLayer selected current interfaces =
      ((interfaces.filter (listed linkLayer))[(selected - current - 1).toNat]?).map Interface.name := by
  induction interfaces generalizing current with
  | nil => rfl
  | cons ifa rest ih =>
    simp only [pick]
    by_cases shown : listed linkLayer ifa = true
    · rw [if_pos shown, List.filter_cons_of_pos shown]
      by_cases here : current + 1 = selected
      · have zero : (selected - current - 1).toNat = 0 := by omega
        rw [if_pos here, zero]
        rfl
      · have more : (selected - current - 1).toNat = (selected - (current + 1) - 1).toNat + 1 := by omega
        rw [if_neg here, more, List.getElem?_cons_succ]
        exact ih (by omega)
    · rw [if_neg shown, List.filter_cons_of_neg shown]
      exact ih later

theorem chosenShown {linkLayer : Int → Bool} {interfaces : List Interface} {answer : Option Int} {nameSize : Nat}
    {name : Argument} (chosen : chooseInterface linkLayer interfaces answer nameSize = some name) :
    ∃ (n : Nat) (ifa : Interface), answer = some (n + 1 : Int) ∧
      (interfaces.filter (listed linkLayer))[n]? = some ifa ∧ name = ifa.name.take (nameSize - 1) := by
  simp only [chooseInterface] at chosen
  split at chosen
  · contradiction
  obtain ⟨selected,rfl,entered⟩ := Option.bind_eq_some_iff.mp chosen
  split at entered
  · contradiction
  rename_i inRange
  rw [pickIs linkLayer interfaces (by omega)] at entered
  obtain ⟨picked,found,rfl⟩ := Option.map_eq_some_iff.mp entered
  obtain ⟨ifa,there,rfl⟩ := Option.map_eq_some_iff.mp found
  have number : (((selected - 0 - 1).toNat : Nat) + 1 : Int) = selected := by omega
  exact ⟨_,ifa,by rw [number],there,rfl⟩

structure PwGoesOn (linkLayer : Int → Bool) (interfaces : List Interface) (answer : Option Int)
    (settings : List Setting) (o : PwOptions) : Prop where
  each : ∀ setting ∈ settings, PwSetting setting
  channels : o.channels = (lastArgument channelsOption settings).elim 40 channelsOf
  interface : (∃ text, lastArgument interfaceOption settings = some text ∧ text ≠ [] ∧ o.interface = text.take 15) ∨
    (∀ text, lastArgument interfaceOption settings = some text → text = []) ∧
      ∃ (n : Nat) (ifa : Interface), answer = some (n + 1 : Int) ∧
        (interfaces.filter (listed linkLayer))[n]? = some ifa ∧ o.interface = ifa.name.take 15

theorem takeNothing {text : Argument} : text.take 15 = [] ↔ text = [] := by
  simp [List.take_eq_nil_iff]

theorem reacjackPwGoesOn {linkLayer : Int → Bool} {interfaces : List Interface} {answer : Option Int}
    {argv : List Argument} {o : PwOptions} (begun : reacjackPw linkLayer interfaces answer argv = .ok o) :
    (∃ settings : List Setting, argv = settings.flatMap words ∧
      PwGoesOn linkLayer interfaces answer settings o) ∧ Supported o.channels.toNat := by
  simp only [reacjackPw] at begun
  cases line : read pwOption .usage ⟨[],40⟩ argv with
  | error refusal =>
    rw [line] at begun
    contradiction
  | ok app =>
    obtain ⟨settings,spelled,applied⟩ := readIff.mp line
    have told := pwLine applied
    have supported := pwCount told
    have interface := told.interface
    simp only [line] at begun
    split at begun
    · rename_i unnamed
      split at begun
      · rename_i chosen
        cases begun
        refine ⟨⟨settings,spelled,told.each,told.channels,.inr ⟨?_,chosenShown chosen⟩⟩,supported⟩
        intro text last
        rw [unnamed, last, Option.elim_some] at interface
        exact takeNothing.mp interface.symm
      · contradiction
    · rename_i named
      cases begun
      refine ⟨⟨settings,spelled,told.each,told.channels,.inl ?_⟩,supported⟩
      cases last : lastArgument interfaceOption settings with
      | none =>
        rw [last] at interface
        exact absurd interface named
      | some text =>
        rw [last, Option.elim_some] at interface
        refine ⟨text,rfl,?_,interface⟩
        rintro rfl
        exact named interface

structure Opens (given : UInt16) (d : ReacDaemon) : Prop where
  opened : d.ring.isSome = true → Supported d.channels.toNat ∧ (given = 0 ∨ d.channels = given)
  unopened : d.ring = none → given = 0

theorem startOpens {given : UInt16} {storage : Nat → Nat → Rat} {created : Bool} {start : Loop}
    (kind : given = 0 ∨ Supported given.toNat) (started : runCapture (daemonOf given) storage created = some start) :
    Opens given start.daemon := by
  unfold runCapture at started
  split at started
  · rename_i fixed
    have supported := kind.resolve_left fixed
    obtain ⟨d,opened,rfl⟩ := Option.map_eq_some_iff.mp started
    rcases Daemon.ensured opened with ⟨there,_⟩ | ⟨_,rfl⟩
    · contradiction
    · exact ⟨fun _ => ⟨supported,.inr rfl⟩,fun missing => by contradiction⟩
  · rename_i open_
    cases Option.some.inj started
    exact ⟨fun there => by contradiction,fun _ => not_not.mp open_⟩

theorem stepOpens {given : UInt16} (b : DaemonLedger.Books) (event : DaemonLedger.Event) (next : DaemonLedger.Books)
    (opens : Opens given b.loop.daemon) (taken : DaemonLedger.step b event = some next) :
    Opens given next.loop.daemon := by
  cases event with
  | capture c =>
    cases c with
    | timeout | error =>
      cases Option.some.inj taken
      exact ⟨opens.opened,opens.unopened⟩
    | frame packet created hostTime =>
      obtain ⟨loop,round,rfl⟩ := Option.map_eq_some_iff.mp taken
      rcases captureFrameCases round with same | same | ⟨channels,ring,_,_,wellFormed,opened,_,same⟩
      · simp only [DaemonLedger.record, same]
        exact ⟨opens.opened,opens.unopened⟩
      · simp only [DaemonLedger.record, same, countMalformed]
        exact ⟨opens.opened,opens.unopened⟩
      · simp only [DaemonLedger.record, same]
        refine ⟨fun _ => ⟨⟨wellFormed.positive,wellFormed.most,wellFormed.even⟩,?_⟩,fun missing => by contradiction⟩
        rcases opened with ⟨there,rfl⟩ | ⟨missing,_⟩
        · exact (opens.opened (by rw [there]; rfl)).2
        · exact .inl (opens.unopened missing)
  | reader call =>
    simp only [DaemonLedger.step] at taken
    split at taken
    · obtain ⟨ring,there,rfl⟩ := Option.map_eq_some_iff.mp taken
      exact ⟨fun _ => opens.opened (by rw [there]; rfl),fun missing => by contradiction⟩
    · contradiction

theorem pwStep {channels : UInt16} (b : PipeWireLedger.Books) (event : PipeWireLedger.Event)
    (next : PipeWireLedger.Books) (kept : PipeWireLedger.Balanced b ∧ b.thread.app.channels = channels)
    (taken : PipeWireLedger.step b event = some next) :
    PipeWireLedger.Balanced next ∧ next.thread.app.channels = channels := by
  obtain ⟨balanced,same⟩ := kept
  obtain ⟨after,result,balancedAfter⟩ := PipeWireLedger.stepBalanced balanced event
  obtain rfl := Option.some.inj (result.symm.trans taken)
  refine ⟨balancedAfter,?_⟩
  cases event with
  | capture c =>
    cases c with
    | nothing | error =>
      cases Option.some.inj taken
      exact same
    | frame bytes =>
      obtain ⟨thread,round,rfl⟩ := Option.map_eq_some_iff.mp taken
      obtain ⟨thread',result',cases_⟩ := PipeWire.captureFrameCases balanced.ready bytes
      obtain rfl := Option.some.inj (result'.symm.trans round)
      rcases cases_ with ⟨_,now | now⟩ | ⟨_,_,now⟩ | ⟨_,_,_,_,now⟩
      all_goals
        simp only [PipeWireLedger.record, now]
        exact same
  | process buffer =>
    obtain ⟨readPos,underruns,out,read,_⟩ := PipeWireLedger.processSpec balanced.ready buffer
    simp only [PipeWireLedger.step, read, Option.map_some] at taken
    rw [← Option.some.inj taken]
    exact same

/-- Whatever stands on the command line, a program that goes on makes a ring of an even
channel count up to 40, which is the last one given, and keeps it whatever is captured. -/
theorem startsSupported :
    (∀ (argv : List Argument) (o : DaemonOptions), reacjackd argv = .ok o →
      (∃ settings : List Setting, argv = settings.flatMap words ∧ DaemonGoesOn settings o) ∧
      (∀ (storage : Nat → Nat → Rat) (created : Bool) (start : Loop) (events : List DaemonLedger.Event)
          (b : DaemonLedger.Books) (ring : SharedAudio.SharedRing Rat), o.toneMode = false →
        runCapture (daemonOf o.channels) storage created = some start →
        run DaemonLedger.step (DaemonLedger.opening start) events = some b → b.loop.daemon.ring = some ring →
          ∃ channels, Ready ring channels ∧ Supported channels.toNat ∧ (o.channels = 0 ∨ channels = o.channels)) ∧
      (∀ (φ : Type) (osc : Oscillator φ) (storage : Nat → Nat → Rat) (created : Bool) (start : Timespec)
          (tone : Generator φ) (events : List ToneStream.Event) (s : ToneStream.Session φ), o.toneMode = true →
        runTone osc (daemonOf o.channels) storage created start = some tone →
        run (ToneStream.step osc) (ToneStream.opened tone) events = some s →
          ∃ ring, s.generator.daemon.ring = some ring ∧ Ready ring o.channels ∧ Supported o.channels.toNat)) ∧
    (∀ (linkLayer : Int → Bool) (interfaces : List Interface) (answer : Option Int) (argv : List Argument)
        (o : PwOptions), reacjackPw linkLayer interfaces answer argv = .ok o →
      (∃ settings : List Setting, argv = settings.flatMap words ∧
        PwGoesOn linkLayer interfaces answer settings o) ∧
      (∀ (storage : Nat → Nat → Rat) (interleaved : Nat → Rat) (events : List PipeWireLedger.Event)
          (b : PipeWireLedger.Books),
        run PipeWireLedger.step (PipeWireLedger.opening ⟨PipeWire.appOf o.channels,storage,interleaved⟩) events =
          some b →
        PipeWire.Ready b.thread.app ∧ b.thread.app.channels = o.channels ∧ Supported o.channels.toNat)) ∧
    ∀ n : Nat, Supported n → channelsOf (Nat.toDigits 10 n) = UInt16.ofNat n := by
  refine ⟨?_,?_,?_⟩
  · intro argv o begun
    obtain ⟨line,kind⟩ := reacjackdGoesOn begun
    refine ⟨line,?_,?_⟩
    · intro storage created start events b ring _ started reached there
      have opens := runInvariant (I := fun b : DaemonLedger.Books => Opens o.channels b.loop.daemon) stepOpens
        (startOpens (kind.imp And.left id) started) reached
      have balanced := runInvariant DaemonLedger.stepBalanced (DaemonLedger.openingBalanced started) reached
      obtain ⟨supported,given⟩ := opens.opened (by rw [there]; rfl)
      exact ⟨_,(balanced.opened ring there).ready,supported,given⟩
    · intro φ osc storage created start tone events s toned begun reached
      have supported : Supported o.channels.toNat := by
        rcases kind with ⟨_,silent⟩ | supported
        · rw [toned] at silent
          contradiction
        · exact supported
      obtain ⟨ring,_,_,playing⟩ := runInvariant (ToneStream.stepPlays osc o.channels storage)
        (ToneStream.openedPlays begun) reached
      exact ⟨ring,playing.there,playing.ready,supported⟩
  · intro linkLayer interfaces answer argv o begun
    obtain ⟨line,supported⟩ := reacjackPwGoesOn begun
    refine ⟨line,fun storage interleaved events b reached => ?_⟩
    obtain ⟨balanced,same⟩ := runInvariant
      (I := fun b : PipeWireLedger.Books => PipeWireLedger.Balanced b ∧ b.thread.app.channels = o.channels) pwStep
      ⟨PipeWireLedger.openingBalanced o.channels storage interleaved,rfl⟩ reached
    exact ⟨balanced.ready,same,supported⟩
  · intro n supported
    have most := supported.most
    rw [channelsOf, strtolDecimal (by omega), Int.toNat_natCast]

def twiceGiven : List Argument :=
  [interfaceOption,['e', 'n', '0'],channelsOption,['8'],channelsOption,['1', '6']]

theorem startsSupportedTwice :
    reacjackd twiceGiven = .ok ⟨some ['e', 'n', '0'],defaultRing,false,16⟩ ∧
    (∃ settings : List Setting, twiceGiven = settings.flatMap words ∧
      DaemonGoesOn settings ⟨some ['e', 'n', '0'],defaultRing,false,16⟩) ∧
    ∀ (storage : Nat → Nat → Rat) (created : Bool) (start : Loop) (events : List DaemonLedger.Event)
        (b : DaemonLedger.Books) (ring : SharedAudio.SharedRing Rat),
      runCapture (daemonOf 16) storage created = some start →
      run DaemonLedger.step (DaemonLedger.opening start) events = some b → b.loop.daemon.ring = some ring →
        Ready ring 16 := by
  have begun : reacjackd twiceGiven = .ok ⟨some ['e', 'n', '0'],defaultRing,false,16⟩ := rfl
  obtain ⟨line,captures,_⟩ := startsSupported.1 twiceGiven _ begun
  refine ⟨begun,line,fun storage created start events b ring started reached there => ?_⟩
  obtain ⟨channels,ready,_,zero | same⟩ := captures storage created start events b ring rfl started reached there
  · exact absurd zero (by decide)
  · rw [same] at ready
    exact ready

example : (reacjackd [interfaceOption,channelsOption,channelsOption,['7']]).toOption.isNone = true := by decide

end ReacJack.StartUp
