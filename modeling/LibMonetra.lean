import LibMonetra.Submission
import LibMonetra.Representation
import LibMonetra.Approval
import LibMonetra.Retry
import LibMonetra.Correlation
import LibMonetra.Fault
import LibMonetra.Timeout
import LibMonetra.Deletion
import LibMonetra.Response
import LibMonetra.Decoding
import LibMonetra.KeyValues
import LibMonetra.Guard
import LibMonetra.Wakeup
import LibMonetra.Destroy
import LibMonetra.Grammar
import LibMonetra.Ping
import LibMonetra.Classification
import LibMonetra.Listing
import LibMonetra.Verdict
import LibMonetra.RandomAmount
import LibMonetra.Endpoint
import LibMonetra.Resources
import LibMonetra.IdleTimer
import LibMonetra.Intervals
import LibMonetra.RunByParts
import LibMonetra.RequestFraming
import LibMonetra.Cli
import LibMonetra.ConnLoad
import LibMonetra.Load
import LibMonetra.ReadEvent
import LibMonetra.Chunking
import LibMonetra.Outbound
import LibMonetra.Stream
import LibMonetra.Returning
import LibMonetra.Readback
import LibMonetra.CliSession
import LibMonetra.CliConduct
import LibMonetra.CliRuns
import LibMonetra.CliWire
import LibMonetra.CommandLine
import LibMonetra.CommandMeaning
