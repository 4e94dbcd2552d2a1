import OneShot.Proofs.Aborting
import OneShot.Proofs.Alike
import OneShot.Proofs.Answering
import OneShot.Proofs.Arguments
import OneShot.Proofs.Attempts
import OneShot.Proofs.Beside
import OneShot.Proofs.Bodies
import OneShot.Proofs.Bounds
import OneShot.Proofs.Chaining
import OneShot.Proofs.Constructions
import OneShot.Proofs.Copies
import OneShot.Proofs.Declarations
import OneShot.Proofs.Dormancy
import OneShot.Proofs.DispatchLog
import OneShot.Proofs.Drivers
import OneShot.Proofs.Driving
import OneShot.Proofs.Enclosing
import OneShot.Proofs.Failing
import OneShot.Proofs.FirstCalls
import OneShot.Proofs.Forwarding
import OneShot.Proofs.HandlerBodies
import OneShot.Proofs.Interviews
import OneShot.Proofs.Hierarchies
import OneShot.Proofs.Keys
import OneShot.Proofs.Levels
import OneShot.Proofs.Likeness
import OneShot.Proofs.Linearisations
import OneShot.Proofs.Loop
import OneShot.Proofs.Mappings
import OneShot.Proofs.Marks
import OneShot.Proofs.Matching
import OneShot.Proofs.MergedTables
import OneShot.Proofs.Merging
import OneShot.Proofs.Messages
import OneShot.Proofs.Mirrors
import OneShot.Proofs.Namespaces
import OneShot.Proofs.Nesting
import OneShot.Proofs.Passing
import OneShot.Proofs.Past
import OneShot.Proofs.Programs
import OneShot.Proofs.Protocol
import OneShot.Proofs.Questions
import OneShot.Proofs.Recovery
import OneShot.Proofs.Renaming
import OneShot.Proofs.Sequencing
import OneShot.Proofs.Shadowing
import OneShot.Proofs.Snapshots
import OneShot.Proofs.Stack
import OneShot.Proofs.StepLimits
import OneShot.Proofs.StoreCalls
import OneShot.Proofs.Stores
import OneShot.Proofs.Tables
import OneShot.Proofs.Throws
import OneShot.Proofs.Transparent
import OneShot.Proofs.Turns
import OneShot.Proofs.Unlogged
import OneShot.Proofs.Unwinding
import OneShot.Proofs.Visits
import OneShot.Proofs.Ways
import OneShot.Proofs.WaysAgree
import OneShot.Script.Session
