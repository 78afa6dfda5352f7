import StarterProjects.Lib.Linked
import StarterProjects.Lib.Reach
import StarterProjects.Sfmm.Disjoint
import StarterProjects.Sfmm.Neighbours
import StarterProjects.Sfmm.Exhaustion
import StarterProjects.Sfmm.Sequence
import StarterProjects.Sfmm.Tags
import StarterProjects.Sfmm.Payload
import StarterProjects.Sfmm.Verdict
import StarterProjects.Jeux.Emptiness
import StarterProjects.Jeux.Ending
import StarterProjects.Jeux.Lifecycle
import StarterProjects.Jeux.Leaks
import StarterProjects.Jeux.Names
import StarterProjects.Jeux.Ratings
import StarterProjects.Jeux.References
import StarterProjects.Jeux.Registered
import StarterProjects.Jeux.Turns
import StarterProjects.Jeux.Replies
import StarterProjects.Jeux.Departures
import StarterProjects.Jeux.Roles
import StarterProjects.Legion.Fields
import StarterProjects.Legion.Arguments
import StarterProjects.Legion.Waiting
import StarterProjects.Legion.Rotation
import StarterProjects.Legion.Children
import StarterProjects.Legion.Settled
import StarterProjects.Legion.Names
import StarterProjects.Dtmf.RoundTrip
import StarterProjects.Dtmf.Goertzel
import StarterProjects.Dtmf.Groups
import StarterProjects.Dtmf.Samples
import StarterProjects.Finddup.Duplicates
import StarterProjects.Sfmm.Shrink
import StarterProjects.Sfmm.Merge
import StarterProjects.Sfmm.QuickLists
import StarterProjects.Dtmf.Options
import StarterProjects.Dtmf.Indices
import StarterProjects.Finddup.Fullcmp
import StarterProjects.Finddup.Crc
import StarterProjects.Jeux.Notation
import StarterProjects.Jeux.Outcomes
import StarterProjects.Jeux.Tally
import StarterProjects.Jeux.Framing
import StarterProjects.Jeux.Absent
import StarterProjects.Jeux.Roster
import StarterProjects.Jeux.Users
import StarterProjects.Jeux.Expected
import StarterProjects.Legion.FirstPass
import StarterProjects.Legion.Missing
import StarterProjects.Legion.Abandoned
import StarterProjects.Legion.Quitting
import StarterProjects.Sfmm.LastBlock
import StarterProjects.Finddup.Pipeline
import StarterProjects.Sfmm.Reuse
import StarterProjects.Sfmm.Rings
import StarterProjects.Sfmm.Contents
import StarterProjects.Sfmm.Secrecy
import StarterProjects.Legion.Refinement
import StarterProjects.Dtmf.Signal
import StarterProjects.Dtmf.Strengths
import StarterProjects.Jeux.Season
import StarterProjects.Jeux.Nodes
import StarterProjects.Dtmf.Recording
