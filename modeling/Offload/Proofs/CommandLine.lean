import Offload.CommandLine
import Offload.Proofs.Session.Submit
import Offload.Proofs.WordCount

namespace Offload.CommandLine

open Session

/-- The input of a run with the given arguments, where it can be opened. -/
def inputOf (args : List Bytes) (files : Bytes → Option Bytes) : Option Bytes :=
  if inputPath args = [] then some sampleInput else files (inputPath args)

def sourceOf (args : List Bytes) : Bytes :=
  if inputPath args = [] then utf8 "sample" else inputPath args

/-- The surroundings of a run once its configuration is loaded. -/
def configured (args : List Bytes) (files : Bytes → Option Bytes) (env : Environment)
    (config : Config) : Environment :=
  let noted := env.logAll (Config.loadClient (configPath args) (files (configPath args))).run.entries
  { noted with journal := noted.journal.setLevel config.logLevel }

/-- The session of a run when it submits its job: it has tried to connect. -/
def submitting (config : Config) (env : Environment) : Session :=
  let (connected, session) := (Session.ofConfig config env).connect
  if connected then session
  else session.log (.warning (utf8 "Orchestrator unreachable, the job will run on this host"))

theorem submitting_steady (config : Config) (env : Environment) : (submitting config env).Steady := by
  have hconnected := ((Reachable.ofConfig config env).step .connect).steady
  unfold submitting
  simp only
  split
  · exact hconnected
  · exact (Session.uses_log _ _).steady hconnected

theorem submitting_defaults (config : Config) (env : Environment) :
    (submitting config env).defaults = config.jobDefaults := by
  unfold submitting
  simp only
  split <;> rfl

theorem jobDefaults_valid {config : Config} (hbounds : config.chunk.least ≤ config.chunk.greatest) :
    config.jobDefaults.Valid :=
  ⟨hbounds, .fixedSize, rfl⟩

def localReport (id data : Bytes) : Bytes :=
  utf8 "Job:    " ++ id ++ utf8 " (" ++ utf8 "completed" ++ utf8 ")\nWords:  " ++ data
    ++ utf8 "\nWorker: " ++ utf8 "local" ++ utf8 "\n"

theorem perform_of_declined {session : Session} (hsteady : session.Steady) {job : Definition}
    {input data : Bytes} (hvalid : session.defaults.Valid)
    (hdeclines : session.Declines (job.manifest input session.defaults))
    (hrun : (job.run input).outcome = .ok data) :
    (perform session job input).1 = .ok (localReport (Identity.make job.name input) data) := by
  have hmanifest := job.validate.value.toManifest_of_valid hvalid input
  rw [Definition.validate_manifest] at hmanifest
  obtain ⟨asked, answer, hsubmit, _⟩ := submit_of_steady hsteady hmanifest
  obtain ⟨outcome, houtcome, hrecord⟩ := submit_of_declined hsteady hmanifest hdeclines
  rw [hrun] at houtcome
  cases outcome with
  | error failure => cases houtcome
  | ok parts =>
    cases houtcome
    rw [hsubmit] at hrecord
    have hresult := result_of_delivered hrecord rfl JobRecord.localWorker_ne resultTimeout
    have hstatus := status_of_settled hrecord rfl (.inl rfl)
    rw [perform, hsubmit]
    simp only [hresult, hstatus]
    rfl

theorem runJob_of_performed {config : Config} {env : Environment} {lines : Chunker}
    {source input text : Bytes}
    (hperformed : (perform (submitting config env) (WordCount.job lines source) input).1 = .ok text) :
    (runJob config env lines source input).exit = 0 ∧
      (runJob config env lines source input).stderr = [] ∧
      (runJob config env lines source input).stdout = heading config input ++ text := by
  unfold submitting at hperformed
  simp only [runJob, hperformed]
  exact ⟨trivial, trivial, trivial⟩

/-- What a run submits. -/
def submission (args : List Bytes) (config : Config) (input : Bytes) : Manifest where
  id := Identity.make (utf8 "word-count") input
  program := Manifest.builtinMark
  input
  options := config.jobDefaults
  metadata := [(utf8 "source", .string (sourceOf args))]

/-- The word count is exact. If the configuration loads, with chunk sizes in order, the input can be
opened and has a length that a word of 64 bits holds, and the node cannot be reached or does not take the
job on, then a run succeeds and prints the number of maximal runs of bytes that are no white space in the
whole input. Chunks of whole lines have as many words together as the input has, whatever their size. -/
theorem word_count_exact {args : List Bytes} {files : Bytes → Option Bytes} {env : Environment}
    {config : Config} {input : Bytes}
    (hconfig : (Config.loadClient (configPath args) (files (configPath args))).run.value = .ok config)
    (hinput : inputOf args files = some input) (hlength : input.length < 2 ^ 64)
    (hsize : 1 ≤ config.chunk.size) (hgreatest : 1 ≤ config.chunk.greatest)
    (hbounds : config.chunk.least ≤ config.chunk.greatest)
    (hdeclines : (submitting config (configured args files env config)).Declines
      (submission args config input)) :
    (run args files env).exit = 0 ∧ (run args files env).stderr = [] ∧
      (run args files env).stdout = heading config input ++
        localReport (Identity.make (utf8 "word-count") input)
          (Bytes.decimal (WordCount.words input).length) ∧
      ∀ lines : Chunker, ((lines.splitLines input).map WordCount.count).sum = WordCount.count input ∧
        WordCount.count input = (WordCount.words input).length := by
  have hpos : 0 < config.chunk.size := by
    rw [UInt64.lt_iff_toNat_lt]
    exact UInt64.le_iff_toNat_le.mp hsize
  let lines : Chunker :=
    ⟨config.chunk.size, 1, config.chunk.greatest, .lineBased, [10, 10], hpos, hgreatest, by decide⟩
  have hmake : Chunker.make config.chunk.size 1 config.chunk.greatest .lineBased [10, 10] =
      .ok lines := Chunker.make_eq_ok hpos hgreatest (by decide)
  have hcount := WordCount.count_le_length input
  have hjob := @WordCount.job_run lines rfl (sourceOf args) input (hcount.trans_lt hlength)
  have hdefaults := submitting_defaults config (configured args files env config)
  have hperformed := perform_of_declined (submitting_steady config (configured args files env config))
    (hdefaults ▸ jobDefaults_valid hbounds) (hdefaults ▸ hdeclines) hjob
  have hrun : run args files env =
      runJob config (configured args files env config) lines (sourceOf args) input := by
    rw [inputOf] at hinput
    simp only [run, hconfig, hinput, hmake]
    rfl
  rw [hrun, ← WordCount.count_eq]
  obtain ⟨hexit, hstderr, hstdout⟩ := runJob_of_performed hperformed
  exact ⟨hexit, hstderr, hstdout, fun lines => ⟨WordCount.sum_count_splitLines lines input, rfl⟩⟩

theorem word_count_exact_sample :
    ∃ files env, (run [] files env).exit = 0 ∧
      (run [] files env).stdout = heading {} sampleInput ++
        localReport (Identity.make (utf8 "word-count") sampleInput) (Bytes.decimal 13) := by
  let files : Bytes → Option Bytes := fun _ => some (utf8 "\x7b\x7d")
  let env : Environment := { resolutions := [.failure []] }
  have hapart : (submitting {} (configured [] files env {})).isConnected = false := rfl
  obtain ⟨hexit, _, hstdout, _⟩ := @word_count_exact [] files env {} sampleInput rfl rfl (by decide)
    (by decide) (by decide) (by decide) (.unconnected hapart)
  have hwords : (WordCount.words sampleInput).length = 13 := by decide
  rw [hwords] at hstdout
  exact ⟨files, env, hexit, hstdout⟩

end Offload.CommandLine
