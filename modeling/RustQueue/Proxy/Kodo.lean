import RustQueue.Lib.Gather
import RustQueue.Lib.Saturating
import Mathlib.Data.String.Basic

/-!
# Statistics of all brokers

The proxy answers a request for statistics with those of all brokers together.  Each broker reports its topics
with their channels, under a name in one of two fields; `mergeTopics` merges a report into what there is.

* `Merged`: what the entry of a topic has from the topics that were reported under its name;
* `merged_joined`: merging the topics of a name one by one gives that, by induction on the reports;
* `statistics_are_sums`: one entry per topic and per channel, whose counters are the saturating sums over the
  brokers, whatever the order of the reports.
-/

namespace RustQueue.Proxy.Kodo

open Lib

structure ChannelStats (Client : Type) where
  channelName : String
  name : String
  depth : Counter
  memoryDepth : Counter
  backendDepth : Counter
  messageCount : Counter
  inFlightCount : Counter
  deferredCount : Counter
  requeueCount : Counter
  timeoutCount : Counter
  clientCount : Counter
  clients : List Client
  paused : Bool

structure TopicStats (Client : Type) where
  topicName : String
  name : String
  depth : Counter
  memoryDepth : Counter
  backendDepth : Counter
  messageCount : Counter
  paused : Bool
  channels : List (ChannelStats Client)

variable {Client : Type}

/-! ### Merging -/

def normalizeChannel (channel : ChannelStats Client) : ChannelStats Client :=
  let channelName := if channel.channelName = "" then channel.name else channel.channelName
  { channel with channelName := channelName, name := channelName }

def normalizeTopic (topic : TopicStats Client) : TopicStats Client :=
  let topicName := if topic.topicName = "" then topic.name else topic.topicName
  { topic with topicName := topicName, name := topicName, channels := topic.channels.map normalizeChannel }

def mergeChannel (existing incoming : ChannelStats Client) : ChannelStats Client :=
  { existing with
    depth := existing.depth + incoming.depth
    memoryDepth := existing.memoryDepth + incoming.memoryDepth
    backendDepth := existing.backendDepth + incoming.backendDepth
    messageCount := existing.messageCount + incoming.messageCount
    inFlightCount := existing.inFlightCount + incoming.inFlightCount
    deferredCount := existing.deferredCount + incoming.deferredCount
    requeueCount := existing.requeueCount + incoming.requeueCount
    timeoutCount := existing.timeoutCount + incoming.timeoutCount
    clientCount := existing.clientCount + incoming.clientCount
    clients := existing.clients ++ incoming.clients
    paused := existing.paused || incoming.paused }

def mergeTopic (existing incoming : TopicStats Client) : TopicStats Client :=
  { existing with
    depth := existing.depth + incoming.depth
    memoryDepth := existing.memoryDepth + incoming.memoryDepth
    backendDepth := existing.backendDepth + incoming.backendDepth
    messageCount := existing.messageCount + incoming.messageCount
    paused := existing.paused || incoming.paused
    channels := absorb ChannelStats.channelName mergeChannel compare existing.channels incoming.channels }

def mergeTopics (output topics : List (TopicStats Client)) : List (TopicStats Client) :=
  absorb TopicStats.topicName mergeTopic compare output (topics.map normalizeTopic)

/-! ### Reports -/

inductive ChannelCounter where
  | depth
  | memoryDepth
  | backendDepth
  | messageCount
  | inFlightCount
  | deferredCount
  | requeueCount
  | timeoutCount
  | clientCount
  deriving DecidableEq, Repr

def ChannelStats.counter (channel : ChannelStats Client) : ChannelCounter → Counter
  | .depth => channel.depth
  | .memoryDepth => channel.memoryDepth
  | .backendDepth => channel.backendDepth
  | .messageCount => channel.messageCount
  | .inFlightCount => channel.inFlightCount
  | .deferredCount => channel.deferredCount
  | .requeueCount => channel.requeueCount
  | .timeoutCount => channel.timeoutCount
  | .clientCount => channel.clientCount

inductive TopicCounter where
  | depth
  | memoryDepth
  | backendDepth
  | messageCount
  deriving DecidableEq, Repr

def TopicStats.counter (topic : TopicStats Client) : TopicCounter → Counter
  | .depth => topic.depth
  | .memoryDepth => topic.memoryDepth
  | .backendDepth => topic.backendDepth
  | .messageCount => topic.messageCount

/-- The name that is used, from the first field if it is given. -/
def ChannelStats.effectiveName (channel : ChannelStats Client) : String :=
  if channel.channelName = "" then channel.name else channel.channelName

def TopicStats.effectiveName (topic : TopicStats Client) : String :=
  if topic.topicName = "" then topic.name else topic.topicName

/-- What a broker reports: its topics, each once, with their channels, each once. -/
structure Report (Client : Type) where
  topics : List (TopicStats Client)
  topicNames : (topics.map TopicStats.effectiveName).Nodup
  channelNames : ∀ topic ∈ topics, (topic.channels.map ChannelStats.effectiveName).Nodup

/-- The reports merged one after the other. -/
def mergeAll (reports : List (Report Client)) : List (TopicStats Client) :=
  reports.foldl (fun output report => mergeTopics output report.topics) []

/-- The brokers that report a topic. -/
def reporting (reports : List (Report Client)) (name : String) : List (Report Client) :=
  reports.filter fun report => report.topics.any fun topic => topic.effectiveName = name

/-- What is reported of a topic. -/
def reported (reports : List (Report Client)) (name : String) : List (TopicStats Client) :=
  (reports.flatMap Report.topics).filter fun topic => topic.effectiveName = name

/-- What is reported of a channel of a topic. -/
def reportedChannels (reports : List (Report Client)) (name channelName : String) :
    List (ChannelStats Client) :=
  ((reported reports name).flatMap TopicStats.channels).filter fun channel =>
    channel.effectiveName = channelName

/-! ### One merge -/

theorem channelName_mergeChannel (a b : ChannelStats Client) :
    (mergeChannel a b).channelName = a.channelName := rfl

theorem topicName_mergeTopic (a b : TopicStats Client) : (mergeTopic a b).topicName = a.topicName := rfl

theorem counter_mergeChannel (counter : ChannelCounter) (a b : ChannelStats Client) :
    (mergeChannel a b).counter counter = a.counter counter + b.counter counter := by
  cases counter <;> rfl

theorem counter_mergeTopic (counter : TopicCounter) (a b : TopicStats Client) :
    (mergeTopic a b).counter counter = a.counter counter + b.counter counter := by
  cases counter <;> rfl

theorem counter_normalizeChannel (counter : ChannelCounter) (channel : ChannelStats Client) :
    (normalizeChannel channel).counter counter = channel.counter counter := by
  cases counter <;> rfl

theorem counter_normalizeTopic (counter : TopicCounter) (topic : TopicStats Client) :
    (normalizeTopic topic).counter counter = topic.counter counter := by
  cases counter <;> rfl

theorem sorted_absorb {α : Type} {key : α → String} {merge : α → α → α}
    (hkey : ∀ a b, key (merge a b) = key a) {out : List α} (h : (out.map key).Nodup) (more : List α) :
    ((absorb key merge compare out more).map key).Pairwise (· < ·) :=
  (@pairwise_absorb String α _ compare _ _ key merge out more hkey h).imp fun hlt => compare_lt_iff_lt.1 hlt

/-! ### One topic -/

/-- The channels of a topic, from the channels that were reported: each name once, and with more than one report
in the order of their names. -/
structure Merged (parts : List (TopicStats Client)) (topic : TopicStats Client) : Prop where
  channels : Gathered ChannelStats.channelName mergeChannel topic.channels (parts.flatMap TopicStats.channels)
  sorted : 2 ≤ parts.length → (topic.channels.map ChannelStats.channelName).Pairwise (· < ·)
  single : ∀ part, parts = [part] → topic.channels = part.channels

theorem Merged.single_of_nodup {part : TopicStats Client}
    (h : (part.channels.map ChannelStats.channelName).Nodup) : Merged [part] part where
  channels := by
    rw [List.flatMap_singleton]
    exact .of_nodup h
  sorted h := absurd h (by simp)
  single part' h := by rw [List.singleton_inj.1 h]

variable {topic : TopicStats Client}

theorem Merged.mergeTopic {parts : List (TopicStats Client)} (h : Merged parts topic)
    (hparts : parts ≠ []) (incoming : TopicStats Client) :
    Merged (parts ++ [incoming]) (mergeTopic topic incoming) where
  channels := by
    rw [List.flatMap_append, List.flatMap_singleton]
    exact h.channels.absorb channelName_mergeChannel
  sorted _ := sorted_absorb channelName_mergeChannel h.channels.nodup _
  single part hpart := by
    have hlength := congrArg List.length hpart
    have hpos := List.length_pos_iff_ne_nil.2 hparts
    rw [List.length_append, List.length_singleton, List.length_singleton] at hlength
    omega

/-- **All reports of a topic**, merged one by one. -/
theorem merged_joined {parts : List (TopicStats Client)}
    (hnames : ∀ part ∈ parts, (part.channels.map ChannelStats.channelName).Nodup)
    (h : joined mergeTopic parts = some topic) : Merged parts topic := by
  induction parts using List.reverseRecOn generalizing topic with
  | nil => cases h
  | append_singleton parts part ih =>
    rw [← foldl_join] at h
    cases hbefore : joined mergeTopic parts with
    | none =>
      rw [hbefore] at h
      cases h
      rw [joined_eq_none.1 hbefore]
      exact .single_of_nodup (hnames part (List.mem_append_right _ List.mem_cons_self))
    | some before =>
      rw [hbefore] at h
      cases h
      refine (ih (fun other hother => hnames other (List.mem_append_left _ hother)) hbefore).mergeTopic ?_ part
      intro hnil
      rw [hnil] at hbefore
      cases hbefore

/-! ### All topics -/

theorem entriesOf_normalizeTopic (reports : List (Report Client)) (name : String) :
    entriesOf TopicStats.topicName ((reports.flatMap Report.topics).map normalizeTopic) name =
      (reported reports name).map normalizeTopic := by
  rw [entriesOf, List.filter_map]
  rfl

theorem entriesOf_normalizeChannel (reports : List (Report Client)) (name channelName : String) :
    entriesOf ChannelStats.channelName
        (((reported reports name).map normalizeTopic).flatMap TopicStats.channels) channelName =
      (reportedChannels reports name channelName).map normalizeChannel := by
  have hchannels : ((reported reports name).map normalizeTopic).flatMap TopicStats.channels =
      ((reported reports name).flatMap TopicStats.channels).map normalizeChannel := by
    rw [List.flatMap_map, List.map_flatMap]
    rfl
  rw [hchannels, entriesOf, List.filter_map]
  rfl

theorem mergeAll_concat (reports : List (Report Client)) (report : Report Client) :
    mergeAll (reports ++ [report]) = mergeTopics (mergeAll reports) report.topics := by
  rw [mergeAll, List.foldl_append]
  rfl

/-- The entries are those of the topics, merged in the order of the reports. -/
theorem gathered_mergeAll (reports : List (Report Client)) :
    Gathered TopicStats.topicName mergeTopic (mergeAll reports)
      ((reports.flatMap Report.topics).map normalizeTopic) := by
  induction reports using List.reverseRecOn with
  | nil => exact .of_nodup List.nodup_nil
  | append_singleton reports report ih =>
    rw [mergeAll_concat, List.flatMap_append, List.flatMap_singleton, List.map_append]
    exact ih.absorb topicName_mergeTopic

theorem sorted_mergeAll (reports : List (Report Client)) :
    ((mergeAll reports).map TopicStats.topicName).Pairwise (· < ·) := by
  induction reports using List.reverseRecOn with
  | nil => exact List.Pairwise.nil
  | append_singleton reports report _ =>
    rw [mergeAll_concat]
    exact sorted_absorb topicName_mergeTopic (gathered_mergeAll reports).nodup _

variable {reports : List (Report Client)}

theorem mem_topicNames {name : String} :
    name ∈ (mergeAll reports).map TopicStats.topicName ↔ reported reports name ≠ [] := by
  rw [(gathered_mergeAll reports).mem_keys, mem_map_key, entriesOf_normalizeTopic, Ne, Ne, List.map_eq_nil_iff]

/-- The entry of a topic joins what was reported under its name. -/
theorem joined_of_mem (h : topic ∈ mergeAll reports) :
    joined mergeTopic ((reported reports topic.topicName).map normalizeTopic) = some topic := by
  rw [← entriesOf_normalizeTopic]
  exact (gathered_mergeAll reports).mem_iff.1 h

theorem merged_of_mem (h : topic ∈ mergeAll reports) :
    Merged ((reported reports topic.topicName).map normalizeTopic) topic := by
  refine merged_joined (fun part hpart => ?_) (joined_of_mem h)
  obtain ⟨raw, hraw, rfl⟩ := List.mem_map.1 hpart
  obtain ⟨report, hreport, htopic⟩ := List.mem_flatMap.1 (List.mem_filter.1 hraw).1
  show ((raw.channels.map normalizeChannel).map ChannelStats.channelName).Nodup
  rw [List.map_map]
  exact report.channelNames raw htopic

variable {channel : ChannelStats Client}

theorem joined_channel_of_mem (h : topic ∈ mergeAll reports) (hchannel : channel ∈ topic.channels) :
    joined mergeChannel ((reportedChannels reports topic.topicName channel.channelName).map
      normalizeChannel) = some channel := by
  rw [← entriesOf_normalizeChannel]
  exact (merged_of_mem h).channels.mem_iff.1 hchannel

theorem length_reporting_le (reports : List (Report Client)) (name : String) :
    (reporting reports name).length ≤ (reported reports name).length := by
  induction reports with
  | nil => exact le_rfl
  | cons report reports ih =>
    unfold reporting reported at ih ⊢
    rw [List.flatMap_cons, List.filter_append, List.length_append]
    cases hreports : report.topics.any fun topic => topic.effectiveName = name with
    | false =>
      rw [List.filter_cons_of_neg (by simp [hreports])]
      omega
    | true =>
      obtain ⟨topic, htopic, hname⟩ := List.any_eq_true.1 hreports
      have hpos : 0 < (report.topics.filter fun topic => topic.effectiveName = name).length :=
        List.length_pos_of_mem (List.mem_filter.2 ⟨htopic, hname⟩)
      rw [List.filter_cons_of_pos (by simpa using hreports), List.length_cons]
      omega

/-! ### Sums -/

theorem value_topic_of_mem (h : topic ∈ mergeAll reports) (counter : TopicCounter) :
    (topic.counter counter).value =
      min ((reported reports topic.topicName).map fun part => (part.counter counter).value).sum u64Max := by
  rw [map_joined (fun part => part.counter counter) (counter_mergeTopic counter) (joined_of_mem h),
    Counter.value_sum, List.map_map, List.map_map]
  refine congrArg (fun parts : List ℕ => min parts.sum u64Max) (List.map_congr_left fun part _ => ?_)
  exact congrArg Counter.value (counter_normalizeTopic counter part)

theorem value_channel_of_mem (h : topic ∈ mergeAll reports)
    (hchannel : channel ∈ topic.channels) (counter : ChannelCounter) :
    (channel.counter counter).value =
      min ((reportedChannels reports topic.topicName channel.channelName).map fun part =>
        (part.counter counter).value).sum u64Max := by
  rw [map_joined (fun part => part.counter counter) (counter_mergeChannel counter)
    (joined_channel_of_mem h hchannel), Counter.value_sum, List.map_map, List.map_map]
  refine congrArg (fun parts : List ℕ => min parts.sum u64Max) (List.map_congr_left fun part _ => ?_)
  exact congrArg Counter.value (counter_normalizeChannel counter part)

theorem clients_of_mem (h : topic ∈ mergeAll reports) (hchannel : channel ∈ topic.channels) :
    (channel.clients : Multiset Client) =
      ((reportedChannels reports topic.topicName channel.channelName).map fun part =>
        (part.clients : Multiset Client)).sum := by
  rw [map_joined (fun part => (part.clients : Multiset Client)) (fun a b => (Multiset.coe_add _ _).symm)
    (joined_channel_of_mem h hchannel), List.map_map]
  rfl

/-! ### The order of the reports -/

/-- A channel without the order of its clients. -/
def ChannelStats.summary (channel : ChannelStats Client) :
    String × (ChannelCounter → ℕ) × Multiset Client × Bool :=
  (channel.channelName, fun counter => (channel.counter counter).value, channel.clients, channel.paused)

/-- A topic without the order of the clients of its channels. -/
def TopicStats.summary (topic : TopicStats Client) :
    String × (TopicCounter → ℕ) × Bool × List (String × (ChannelCounter → ℕ) × Multiset Client × Bool) :=
  (topic.topicName, fun counter => (topic.counter counter).value, topic.paused,
    topic.channels.map ChannelStats.summary)

section

variable {reports reports' : List (Report Client)} (hperm : reports.Perm reports')
include hperm

theorem reported_perm (name : String) : (reported reports name).Perm (reported reports' name) :=
  (hperm.flatMap_right _).filter _

theorem reportedChannels_perm (name channelName : String) :
    (reportedChannels reports name channelName).Perm (reportedChannels reports' name channelName) :=
  ((reported_perm hperm name).flatMap_right _).filter _

theorem channel_summary_eq {topic' : TopicStats Client} (h : topic ∈ mergeAll reports)
    (h' : topic' ∈ mergeAll reports') (hname : topic.topicName = topic'.topicName)
    {channel' : ChannelStats Client} (hc : channel ∈ topic.channels) (hc' : channel' ∈ topic'.channels)
    (hchannel : channel.channelName = channel'.channelName) : channel.summary = channel'.summary := by
  have hparts := reportedChannels_perm hperm topic.topicName channel.channelName
  have hcounters : (fun counter => (channel.counter counter).value) =
      fun counter => (channel'.counter counter).value := by
    funext counter
    rw [value_channel_of_mem h hc, value_channel_of_mem h' hc', ← hname, ← hchannel]
    exact congrArg (min · u64Max) (hparts.map _).sum_eq
  have hclients : (channel.clients : Multiset Client) = channel'.clients := by
    rw [clients_of_mem h hc, clients_of_mem h' hc', ← hname, ← hchannel]
    exact (hparts.map _).sum_eq
  have hpaused : channel.paused = channel'.paused := by
    rw [any_joined ChannelStats.paused (fun _ _ => rfl) (joined_channel_of_mem h hc),
      any_joined ChannelStats.paused (fun _ _ => rfl) (joined_channel_of_mem h' hc'), ← hname, ← hchannel]
    exact (hparts.map _).any_eq
  rw [ChannelStats.summary, ChannelStats.summary, hchannel, hcounters, hclients, hpaused]

theorem channelNames_eq {topic' : TopicStats Client} (h : topic ∈ mergeAll reports)
    (h' : topic' ∈ mergeAll reports') (hname : topic.topicName = topic'.topicName) :
    topic.channels.map ChannelStats.channelName = topic'.channels.map ChannelStats.channelName := by
  have hparts := (reported_perm hperm topic.topicName).map normalizeTopic
  have hmerged := merged_of_mem h
  have hmerged' := merged_of_mem h'
  rw [← hname] at hmerged'
  by_cases hmany : 2 ≤ ((reported reports topic.topicName).map normalizeTopic).length
  · -- sorted names are determined by which they are
    refine (hmerged.sorted hmany).eq_of_mem_iff (hmerged'.sorted (hparts.length_eq ▸ hmany)) fun name => ?_
    rw [hmerged.channels.mem_keys, hmerged'.channels.mem_keys]
    exact ((hparts.flatMap_right _).map _).mem_iff
  · have hsome := joined_of_mem h
    obtain ⟨part, hpart⟩ : ∃ part, (reported reports topic.topicName).map normalizeTopic = [part] := by
      cases hlist : (reported reports topic.topicName).map normalizeTopic with
      | nil =>
        rw [hlist] at hsome
        cases hsome
      | cons part rest =>
        rw [hlist, List.length_cons] at hmany
        have hrest : rest = [] := List.length_eq_zero_iff.1 (by omega)
        exact ⟨part, by rw [hrest]⟩
    have hpart' : (reported reports' topic.topicName).map normalizeTopic = [part] :=
      List.perm_singleton.1 (hpart ▸ hparts.symm)
    rw [hmerged.single part hpart, hmerged'.single part hpart']

theorem topic_summary_eq {topic' : TopicStats Client} (h : topic ∈ mergeAll reports)
    (h' : topic' ∈ mergeAll reports') (hname : topic.topicName = topic'.topicName) :
    topic.summary = topic'.summary := by
  have hparts := reported_perm hperm topic.topicName
  have hcounters : (fun counter => (topic.counter counter).value) =
      fun counter => (topic'.counter counter).value := by
    funext counter
    rw [value_topic_of_mem h, value_topic_of_mem h', ← hname]
    exact congrArg (min · u64Max) (hparts.map _).sum_eq
  have hpaused : topic.paused = topic'.paused := by
    rw [any_joined TopicStats.paused (fun _ _ => rfl) (joined_of_mem h),
      any_joined TopicStats.paused (fun _ _ => rfl) (joined_of_mem h'), ← hname]
    exact (hparts.map _).any_eq
  have hchannels : topic.channels.map ChannelStats.summary = topic'.channels.map ChannelStats.summary :=
    map_eq_map_of_keys (channelNames_eq hperm h h' hname) fun channel hc channel' hc' hchannel =>
      channel_summary_eq hperm h h' hname hc hc' hchannel
  rw [TopicStats.summary, TopicStats.summary, hname, hcounters, hpaused, hchannels]

/-- **The order of the reports makes no difference.** -/
theorem mergeAll_perm :
    (mergeAll reports).map TopicStats.summary = (mergeAll reports').map TopicStats.summary := by
  have hnames : (mergeAll reports).map TopicStats.topicName = (mergeAll reports').map TopicStats.topicName := by
    refine (sorted_mergeAll reports).eq_of_mem_iff (sorted_mergeAll reports') fun name => ?_
    rw [mem_topicNames, mem_topicNames, Ne, Ne, ← List.length_eq_zero_iff, ← List.length_eq_zero_iff,
      (reported_perm hperm name).length_eq]
  exact map_eq_map_of_keys hnames fun topic h topic' h' hname => topic_summary_eq hperm h h' hname

end

/-- **The statistics are sums.**  Whatever the brokers report: there is one entry for each topic name, sorted by name, and
in a topic that more than one broker reports one for each channel name; every counter is the
saturating sum over what is reported, a topic or channel is paused if it is somewhere, and its clients are all that are
reported.  The order of the reports makes no difference. -/
theorem statistics_are_sums (reports : List (Report Client)) :
    ((mergeAll reports).map TopicStats.topicName).Pairwise (· < ·) ∧
    (∀ name, name ∈ (mergeAll reports).map TopicStats.topicName ↔ reported reports name ≠ []) ∧
    (∀ topic ∈ mergeAll reports,
      (∀ counter, (topic.counter counter).value =
        min ((reported reports topic.topicName).map fun part => (part.counter counter).value).sum u64Max) ∧
      topic.paused = (reported reports topic.topicName).any TopicStats.paused ∧
      (topic.channels.map ChannelStats.channelName).Nodup ∧
      (2 ≤ (reporting reports topic.topicName).length →
        (topic.channels.map ChannelStats.channelName).Pairwise (· < ·)) ∧
      (∀ name, name ∈ topic.channels.map ChannelStats.channelName ↔
        reportedChannels reports topic.topicName name ≠ []) ∧
      ∀ channel ∈ topic.channels,
        (∀ counter, (channel.counter counter).value =
          min ((reportedChannels reports topic.topicName channel.channelName).map fun part =>
            (part.counter counter).value).sum u64Max) ∧
        channel.paused =
          (reportedChannels reports topic.topicName channel.channelName).any ChannelStats.paused ∧
        (channel.clients : Multiset Client) =
          ((reportedChannels reports topic.topicName channel.channelName).map fun part =>
            (part.clients : Multiset Client)).sum) ∧
    ∀ reports', reports.Perm reports' →
      (mergeAll reports).map TopicStats.summary = (mergeAll reports').map TopicStats.summary := by
  refine ⟨sorted_mergeAll reports, fun _ => mem_topicNames, fun topic h => ?_, fun _ => mergeAll_perm⟩
  have hmerged := merged_of_mem h
  refine ⟨value_topic_of_mem h, ?_, hmerged.channels.nodup, fun hmany => hmerged.sorted ?_, fun name => ?_,
    fun channel hchannel => ⟨value_channel_of_mem h hchannel, ?_, clients_of_mem h hchannel⟩⟩
  · rw [any_joined TopicStats.paused (fun _ _ => rfl) (joined_of_mem h), List.any_map]
    rfl
  · rw [List.length_map]
    exact hmany.trans (length_reporting_le reports topic.topicName)
  · rw [hmerged.channels.mem_keys, mem_map_key, entriesOf_normalizeChannel, Ne, Ne, List.map_eq_nil_iff]
  · rw [any_joined ChannelStats.paused (fun _ _ => rfl) (joined_channel_of_mem h hchannel), List.any_map]
    rfl

/-- A broker whose one topic has its name in the second field, and one channel with a client. -/
def oneChannel (depth : Counter) (client : ℕ) (paused : Bool) : Report ℕ where
  topics := [⟨"", "orders", depth, 0, 0, 0, false,
    [⟨"audit", "", depth, 0, 0, 0, 0, 0, 0, 0, ⟨1, by decide⟩, [client], paused⟩]⟩]
  topicNames := by simp
  channelNames := by simp

/-- Two brokers report one channel, which one of them has paused. -/
theorem statistics_are_sums_orders :
    ∃ topic ∈ mergeAll [oneChannel ⟨2, by decide⟩ 7 false, oneChannel ⟨3, by decide⟩ 8 true],
      (topic.counter .depth).value = 5 ∧ ∃ channel ∈ topic.channels, channel.channelName = "audit" ∧
        (channel.counter .depth).value = 5 ∧ (channel.counter .clientCount).value = 2 ∧
        channel.paused = true ∧ (channel.clients : Multiset ℕ) = {7, 8} := by
  obtain ⟨-, hnames, htopics, -⟩ :=
    statistics_are_sums [oneChannel ⟨2, by decide⟩ 7 false, oneChannel ⟨3, by decide⟩ 8 true]
  obtain ⟨topic, hmem, hname⟩ := List.mem_map.1 ((hnames "orders").2 (List.cons_ne_nil _ _))
  obtain ⟨hcounters, -, -, -, hchannels, hsums⟩ := htopics topic hmem
  rw [hname] at hcounters hchannels hsums
  obtain ⟨channel, hchannel, haudit⟩ := List.mem_map.1 ((hchannels "audit").2 (List.cons_ne_nil _ _))
  obtain ⟨hdepths, hpaused, hclients⟩ := hsums channel hchannel
  rw [haudit] at hdepths hpaused hclients
  exact ⟨topic, hmem, (hcounters .depth).trans rfl, channel, hchannel, haudit, (hdepths .depth).trans rfl,
    (hdepths .clientCount).trans rfl, hpaused, hclients⟩

end RustQueue.Proxy.Kodo
